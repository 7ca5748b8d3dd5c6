import GrokPi.Chat.ImageBudget

set_option autoImplicit false

namespace GrokPi.Chat

open Json Text

section Sizes

def partBytes (part : ContentPart) : Nat := serializedBytes part.toJson

def itemBytes (item : RequestItem) : Nat := serializedBytes item.toJson

theorem image_bytes (url : Text) : partBytes (.image url) = imagePartFrameBytes + escapedBytes url := by
  simp only [partBytes, imagePartFrameBytes, ContentPart.toJson, serializedBytes_object, List.map_cons,
    List.map_nil, joinedBytes, memberBytes, serializedBytes_string, List.sum_cons, List.sum_nil,
    List.length_cons, List.length_nil]
  have empty : escapedBytes [] = 0 := rfl
  omega

theorem parts_bytes (parts : List ContentPart) :
    serializedBytes (.array (parts.map ContentPart.toJson)) = joinedBytes (parts.map partBytes) + 2 := by
  rw [serializedBytes_array, List.map_map]
  rfl

theorem request_bytes (conversation : List RequestItem) :
    requestBytes conversation = (conversation.map itemBytes).sum + (conversation.length - 1) + 2 := by
  rw [requestBytes, serializedBytes_array, List.map_map, joinedBytes, List.length_map]
  rfl

theorem user_bytes (content : List ContentPart) (more : List (Text × Json)) :
    itemBytes (.user content more) =
      joinedBytes (content.map partBytes) + itemBytes (.user [] more) := by
  have empty : serializedBytes (.array []) = 2 := rfl
  simp only [itemBytes, RequestItem.toJson, serializedBytes_object, List.map_cons, joinedBytes,
    memberBytes, parts_bytes, List.sum_cons, List.length_cons, List.map_nil, empty]
  omega

def imagesFieldBytes (images : List ContentPart) : Nat :=
  if images = [] then 0 else joinedBytes (images.map partBytes) + 12

theorem toolResult_bytes (toolCallId content : Text) (images : List ContentPart) :
    itemBytes (.toolResult toolCallId content images) =
      itemBytes (.toolResult toolCallId [] []) + escapedBytes content + imagesFieldBytes images := by
  have name : escapedBytes "images".toList = 6 := by decide
  have empty : escapedBytes [] = 0 := rfl
  cases images with
  | nil =>
      simp only [itemBytes, RequestItem.toJson, serializedBytes_object, List.map_cons, joinedBytes,
        memberBytes, serializedBytes_string, List.sum_cons, List.length_cons, List.isEmpty_nil, if_true,
        List.map_nil, List.sum_nil, List.length_nil, imagesFieldBytes]
      omega
  | cons image rest =>
      have field := parts_bytes (image :: rest)
      simp only [itemBytes, RequestItem.toJson, serializedBytes_object, List.map_cons, joinedBytes,
        memberBytes, serializedBytes_string, List.sum_cons, List.length_cons, List.isEmpty_nil, if_true,
        List.map_nil, List.sum_nil, List.length_nil, imagesFieldBytes, List.isEmpty_cons,
        Bool.false_eq_true, if_false, reduceCtorEq, name] at field ⊢
      omega

theorem joinedBytes_add {α : Type} {whole base added : α → Nat} {values : List α}
    (each : ∀ value ∈ values, whole value = base value + added value) :
    joinedBytes (values.map whole) = joinedBytes (values.map base) + (values.map added).sum := by
  have sums : (values.map whole).sum = (values.map base).sum + (values.map added).sum := by
    rw [← List.sum_map_add]
    exact congrArg List.sum (List.map_congr_left each)
  simp only [joinedBytes, List.length_map, sums]
  omega

end Sizes

section Plain

def PlainTail (url : Text) : Prop :=
  ∀ header tail, splitOnComma url = some (header, tail) → isInlineHeader header = true →
    ∀ c ∈ tail, escapeChar c = [c]

def PlainTails (conversation : List RequestItem) : Prop :=
  ∀ item ∈ conversation, ∀ url, .image url ∈ item.images → PlainTail url

theorem splitOnComma_some {url header tail : Text} (split : splitOnComma url = some (header, tail)) :
    url = header ++ ',' :: tail := by
  induction url generalizing header with
  | nil => simp [splitOnComma] at split
  | cons c rest ih =>
      rw [splitOnComma] at split
      split at split
      next comma =>
        cases split
        rw [comma, List.nil_append]
      next =>
        obtain ⟨parts, later, same⟩ := Option.map_eq_some_iff.mp split
        cases same
        rw [ih later, List.cons_append]

theorem encodedUrl_exact {url : Text} (plain : PlainTail url) : encodedUrlBytes url = escapedBytes url := by
  have whole : serializedBytes (.string url) - 2 = escapedBytes url := by
    rw [serializedBytes_string, Nat.add_sub_cancel]
  rw [encodedUrlBytes]
  split
  next => exact whole
  next header tail split =>
    split
    next inline =>
      have comma : byteLen (escapeChar ',') = 1 := by decide
      rw [splitOnComma_some split, escapedBytes_append, escapedBytes_cons, comma,
        escapedBytes_plain (plain header tail split inline), serializedBytes_string]
      omega
    next => exact whole

theorem imagePart_exact {url : Text} (plain : PlainTail url) : imagePartBytes url = partBytes (.image url) := by
  rw [imagePartBytes, encodedUrl_exact plain, image_bytes]

theorem blank_part {part : ContentPart} (plain : ∀ url, part = .image url → PlainTail url) :
    partBytes part = partBytes part.blank + part.urlBytes := by
  cases part with
  | text words => simp only [ContentPart.blank, ContentPart.urlBytes, Nat.add_zero]
  | image url =>
      have none' : escapedBytes [] = 0 := rfl
      rw [ContentPart.blank, ContentPart.urlBytes, image_bytes, image_bytes,
        encodedUrl_exact (plain url rfl), none']
      omega

theorem blank_parts {parts : List ContentPart}
    (plain : ∀ url, .image url ∈ parts.filter ContentPart.isImage → PlainTail url) :
    joinedBytes (parts.map partBytes) =
      joinedBytes ((parts.map ContentPart.blank).map partBytes) + (parts.map ContentPart.urlBytes).sum := by
  rw [List.map_map]
  apply joinedBytes_add
  intro part member
  apply blank_part
  rintro url rfl
  exact plain url (List.mem_filter.mpr ⟨member, rfl⟩)

theorem blank_item {item : RequestItem} (plain : ∀ url, .image url ∈ item.images → PlainTail url) :
    itemBytes item = itemBytes item.blank + item.urlBytes := by
  cases item with
  | user content more =>
      rw [RequestItem.blank, RequestItem.urlBytes, user_bytes, user_bytes (content.map _), blank_parts plain]
      omega
  | toolResult toolCallId content images =>
      rw [RequestItem.blank, RequestItem.urlBytes, toolResult_bytes,
        toolResult_bytes toolCallId content (images.map _)]
      cases images with
      | nil => simp only [List.map_nil, List.sum_nil, Nat.add_zero]
      | cons image rest =>
          rw [imagesFieldBytes, imagesFieldBytes, if_neg (by simp), if_neg (by simp), blank_parts plain]
          omega
  | imageless json => simp only [RequestItem.blank, RequestItem.urlBytes, Nat.add_zero]

theorem conversationBodyBytes_exact {conversation : List RequestItem} (plain : PlainTails conversation) :
    conversationBodyBytes conversation = requestBytes conversation := by
  have joined := @joinedBytes_add _ itemBytes (fun item => itemBytes item.blank) RequestItem.urlBytes
    conversation fun item member => blank_item (plain item member)
  have blanked : requestBytes (conversation.map RequestItem.blank) =
      joinedBytes (conversation.map fun item => itemBytes item.blank) + 2 := by
    rw [request_bytes, joinedBytes, List.map_map, List.length_map, List.length_map]
    rfl
  have whole : requestBytes conversation = joinedBytes (conversation.map itemBytes) + 2 := by
    rw [request_bytes, joinedBytes, List.length_map]
  rw [conversationBodyBytes, blanked, whole, joined]
  omega

end Plain

section First

theorem placeholder_text : placeholder.isImage = false := rfl

theorem first_image_split {parts : List ContentPart} (some' : parts.filter ContentPart.isImage ≠ []) :
    ∃ texts url rest, parts = texts ++ .image url :: rest ∧ ∀ part ∈ texts, part.isImage = false := by
  induction parts with
  | nil => simp at some'
  | cons part parts ih =>
      cases part with
      | image url => exact ⟨[], url, parts, rfl, by simp⟩
      | text words =>
          obtain ⟨texts, url, rest, rfl, plain⟩ := ih some'
          refine ⟨.text words :: texts, url, rest, rfl, ?_⟩
          intro part member
          rcases List.mem_cons.mp member with rfl | within
          · rfl
          · exact plain part within

variable {texts : List ContentPart} (plain : ∀ part ∈ texts, part.isImage = false)

include plain

theorem texts_filter (rest : List ContentPart) :
    (texts ++ rest).filter ContentPart.isImage = rest.filter ContentPart.isImage := by
  have none' : texts.filter ContentPart.isImage = [] :=
    List.filter_eq_nil_iff.mpr fun part member => by simp [plain part member]
  rw [List.filter_append, none', List.nil_append]

theorem userImages_texts (item part : Nat) (rest : List ContentPart) :
    userImages item part (texts ++ rest) = userImages item (part + texts.length) rest := by
  induction texts generalizing part with
  | nil => rfl
  | cons first texts ih =>
      cases first with
      | image url => exact absurd (plain _ List.mem_cons_self) (by simp [ContentPart.isImage])
      | text words =>
          rw [List.cons_append, userImages, ih (fun other member => plain other (List.mem_cons_of_mem _ member)),
            List.length_cons, Nat.add_right_comm, Nat.add_assoc]

theorem toolImages_texts (item : Nat) (rest : List ContentPart) :
    toolImages item (texts ++ rest) = toolImages item rest := by
  induction texts with
  | nil => rfl
  | cons first texts ih =>
      cases first with
      | image url => exact absurd (plain _ List.mem_cons_self) (by simp [ContentPart.isImage])
      | text words => exact ih fun other member => plain other (List.mem_cons_of_mem _ member)

theorem replaceFirstImage_texts (url : Text) (rest : List ContentPart) :
    replaceFirstImage (texts ++ .image url :: rest) = texts ++ placeholder :: rest := by
  induction texts with
  | nil => rfl
  | cons first texts ih =>
      cases first with
      | image url => exact absurd (plain _ List.mem_cons_self) (by simp [ContentPart.isImage])
      | text words =>
          rw [List.cons_append, replaceFirstImage,
            ih fun other member => plain other (List.mem_cons_of_mem _ member), List.cons_append]

theorem eraseFirstImage_texts (url : Text) (rest : List ContentPart) :
    (texts ++ .image url :: rest).eraseP ContentPart.isImage = texts ++ rest := by
  rw [List.eraseP_append_right _ fun part member => by simp [plain part member]]
  rfl

end First

section Oldest

variable {before : List RequestItem} (imageless : ∀ other ∈ before, other.images = [])

include imageless

theorem imagesFrom_before (start : Nat) (rest : List RequestItem) :
    imagesFrom start (before ++ rest) = imagesFrom (start + before.length) rest := by
  induction before generalizing start with
  | nil => rfl
  | cons item before ih =>
      have later := ih (fun other member => imageless other (List.mem_cons_of_mem _ member)) (start + 1)
      have none' := imageless item List.mem_cons_self
      rw [List.length_cons, Nat.add_comm before.length 1, ← Nat.add_assoc, ← later]
      cases item with
      | user content more =>
          have texts := @userImages_texts content
            (fun part member => by simpa using List.filter_eq_nil_iff.mp none' part member) start 0 []
          rw [List.append_nil] at texts
          rw [List.cons_append, imagesFrom, texts, userImages, List.nil_append]
      | toolResult toolCallId content images =>
          have texts := @toolImages_texts images
            (fun part member => by simpa using List.filter_eq_nil_iff.mp none' part member) start []
          rw [List.append_nil] at texts
          rw [List.cons_append, imagesFrom, texts, toolImages, List.nil_append]
      | imageless json => rfl

theorem evictFirst_before {item : RequestItem} (some' : item.images ≠ []) (after : List RequestItem) :
    evictFirst (before ++ item :: after) = before ++ item.evictFirst :: after := by
  induction before with
  | nil => rw [List.nil_append, List.nil_append, evictFirst, if_neg some']
  | cons other before ih =>
      rw [List.cons_append, List.cons_append, evictFirst, if_pos (imageless other List.mem_cons_self),
        ih fun other member => imageless other (List.mem_cons_of_mem _ member)]

theorem shortfall_before (rest : List RequestItem) : shortfall (before ++ rest) = shortfall rest := by
  induction before with
  | nil => rfl
  | cons other before ih =>
      have none' := imageless other List.mem_cons_self
      rw [List.cons_append, shortfall, if_pos none',
        ih fun other member => imageless other (List.mem_cons_of_mem _ member)]

theorem omission_before (rest : List RequestItem) : omission (before ++ rest) = omission rest := by
  induction before with
  | nil => rfl
  | cons other before ih =>
      have none' := imageless other List.mem_cons_self
      rw [List.cons_append, omission, if_pos none',
        ih fun other member => imageless other (List.mem_cons_of_mem _ member)]

end Oldest

section Split

theorem first_item_split {conversation : List RequestItem} {start : Nat}
    (some' : imagesFrom start conversation ≠ []) :
    ∃ before item after, conversation = before ++ item :: after ∧
      (∀ other ∈ before, other.images = []) ∧ item.images ≠ [] := by
  induction conversation generalizing start with
  | nil => exact absurd rfl some'
  | cons item rest ih =>
      by_cases none' : item.images = []
      · have alone : ∀ other ∈ [item], other.images = [] := by simpa using none'
        rw [← List.singleton_append, imagesFrom_before alone] at some'
        obtain ⟨before, found, after, rfl, imageless, has⟩ := ih some'
        refine ⟨item :: before, found, after, rfl, ?_, has⟩
        intro other member
        rcases List.mem_cons.mp member with rfl | within
        · exact none'
        · exact imageless other within
      · exact ⟨[], item, rest, rfl, by simp, none'⟩

end Split

section Totals

def RequestItem.parts : RequestItem → List ContentPart
  | .user content _ => content
  | .toolResult _ _ images => images
  | .imageless _ => []

def partTotal (conversation : List RequestItem) : Nat :=
  (conversation.map fun item => (item.parts.map partBytes).sum).sum

theorem parts_le_item (item : RequestItem) : (item.parts.map partBytes).sum ≤ itemBytes item := by
  cases item with
  | user content more =>
      rw [user_bytes, joinedBytes]
      exact le_trans (Nat.le_add_right _ _) (Nat.le_add_right _ _)
  | toolResult toolCallId content images =>
      rw [toolResult_bytes, imagesFieldBytes, joinedBytes]
      split
      next empty => simp [RequestItem.parts, empty]
      next =>
        simp only [RequestItem.parts]
        omega
  | imageless json => exact Nat.zero_le _

theorem partTotal_le (conversation : List RequestItem) :
    partTotal conversation + 2 ≤ requestBytes conversation := by
  have each : partTotal conversation ≤ (conversation.map itemBytes).sum :=
    List.sum_le_sum fun item _ => parts_le_item item
  rw [request_bytes]
  omega

theorem request_replace (before after : List RequestItem) (item other : RequestItem) :
    requestBytes (before ++ other :: after) + itemBytes item =
      requestBytes (before ++ item :: after) + itemBytes other := by
  simp only [request_bytes, List.map_append, List.map_cons, List.sum_append, List.sum_cons,
    List.length_append, List.length_cons]
  omega

theorem partTotal_replace (before after : List RequestItem) (item other : RequestItem) :
    partTotal (before ++ other :: after) + (item.parts.map partBytes).sum =
      partTotal (before ++ item :: after) + (other.parts.map partBytes).sum := by
  simp only [partTotal, List.map_append, List.map_cons, List.sum_append, List.sum_cons]
  omega

theorem parts_replace (texts rest : List ContentPart) (part other : ContentPart) :
    joinedBytes ((texts ++ other :: rest).map partBytes) + partBytes part =
      joinedBytes ((texts ++ part :: rest).map partBytes) + partBytes other := by
  simp only [joinedBytes, List.map_append, List.map_cons, List.sum_append, List.sum_cons,
    List.length_append, List.length_cons]
  omega

theorem imagesField_remove (texts rest : List ContentPart) (part : ContentPart) :
    imagesFieldBytes (texts ++ part :: rest) =
      imagesFieldBytes (texts ++ rest) + partBytes part + if texts ++ rest = [] then 12 else 1 := by
  have nonempty : texts ++ part :: rest ≠ [] := by simp
  rw [imagesFieldBytes, imagesFieldBytes, if_neg nonempty]
  by_cases empty : texts ++ rest = []
  · obtain ⟨rfl, rfl⟩ := List.append_eq_nil_iff.mp empty
    simp [joinedBytes]
  · have some' : 0 < texts.length + rest.length := by
      rw [← List.length_append]
      exact List.length_pos_iff.mpr empty
    rw [if_neg empty, if_neg empty]
    simp only [joinedBytes, List.map_append, List.map_cons, List.sum_append, List.sum_cons,
      List.length_append, List.length_cons, List.length_map]
    omega

theorem noted_bytes (content : Text) :
    escapedBytes (content ++ toolNoteSuffix) = escapedBytes content + toolNoteBytes := by
  rw [escapedBytes_append, toolNoteBytes, serializedBytes_string, Nat.add_sub_cancel]

end Totals

section Step

/-- What an eviction does to the estimate, to the conversation and to the drift between them. -/
def Charged (conversation : List RequestItem) (imageBytes running running' : Nat) : Prop :=
  (running' = running - (imageBytes - placeholderBytes) ∧
    requestBytes (evictFirst conversation) + imageBytes = requestBytes conversation + placeholderBytes ∧
    partTotal (evictFirst conversation) + imageBytes = partTotal conversation + placeholderBytes ∧
    shortfall conversation = placeholderBytes - imageBytes ∧ omission conversation = 0) ∨
  ∃ comma note, comma ≤ 1 ∧ running' = running - (imageBytes + comma) + note ∧
    requestBytes (evictFirst conversation) + imageBytes + comma + omission conversation =
      requestBytes conversation + note ∧
    partTotal (evictFirst conversation) + imageBytes = partTotal conversation ∧
    shortfall conversation = 0

variable {before : List RequestItem} (imageless : ∀ other ∈ before, other.images = [])
  {texts : List ContentPart} (plain : ∀ part ∈ texts, part.isImage = false)

include imageless plain

theorem evict_user {url : Text} (exact' : imagePartBytes url = partBytes (.image url))
    {rest : List ContentPart} {more : List (Text × Json)} {after conversation : List RequestItem}
    (shape : conversation = before ++ .user (texts ++ .image url :: rest) more :: after)
    (running evicted : Nat) :
    ∃ image images next, imagesFrom 0 conversation = image :: images ∧
      imagesFrom 0 (evictFirst conversation) = images ∧
      evictImage ⟨conversation, running, evicted⟩ image = ⟨evictFirst conversation, next, evicted + 1⟩ ∧
      Charged conversation image.2 running next := by
  subst shape
  have found : (RequestItem.user (texts ++ .image url :: rest) more).images =
      .image url :: rest.filter ContentPart.isImage := texts_filter plain _
  have evicted' : evictFirst (before ++ .user (texts ++ .image url :: rest) more :: after) =
      before ++ .user (texts ++ placeholder :: rest) more :: after := by
    rw [evictFirst_before imageless (by simp [found]), RequestItem.evictFirst, replaceFirstImage_texts plain]
  refine ⟨(.user before.length texts.length, imagePartBytes url),
    userImages before.length (texts.length + 1) rest ++ imagesFrom (before.length + 1) after,
    running - (imagePartBytes url - placeholderBytes), ?_, ?_, ?_, .inl ⟨rfl, ?_, ?_, ?_, ?_⟩⟩
  · rw [imagesFrom_before imageless, imagesFrom, userImages_texts plain, userImages]
    simp
  · rw [evicted', imagesFrom_before imageless, imagesFrom, userImages_texts plain]
    simp only [placeholder, userImages, Nat.zero_add]
  · rw [evicted', evictImage]
    simp
  · have replaced := request_replace before after (.user (texts ++ .image url :: rest) more)
      (.user (texts ++ placeholder :: rest) more)
    have old := user_bytes (texts ++ .image url :: rest) more
    have new := user_bytes (texts ++ placeholder :: rest) more
    have parts := parts_replace texts rest (.image url) placeholder
    have same : placeholderBytes = partBytes placeholder := rfl
    rw [evicted', exact', same]
    omega
  · have totals := partTotal_replace before after (.user (texts ++ .image url :: rest) more)
      (.user (texts ++ placeholder :: rest) more)
    have same : placeholderBytes = partBytes placeholder := rfl
    simp only [RequestItem.parts, List.map_append, List.map_cons, List.sum_append, List.sum_cons] at totals
    rw [evicted', exact', same]
    omega
  · rw [shortfall_before imageless, shortfall, if_neg (by simp [found]), RequestItem.shortfall,
      texts_filter plain, exact', partBytes]
    rfl
  · rw [omission_before imageless, omission, if_neg (by simp [found])]
    rfl

theorem evict_toolResult {url : Text} (exact' : imagePartBytes url = partBytes (.image url))
    {rest : List ContentPart} {toolCallId content : Text} {after conversation : List RequestItem}
    (shape : conversation = before ++ .toolResult toolCallId content (texts ++ .image url :: rest) :: after)
    (running evicted : Nat) :
    ∃ image images next, imagesFrom 0 conversation = image :: images ∧
      imagesFrom 0 (evictFirst conversation) = images ∧
      evictImage ⟨conversation, running, evicted⟩ image = ⟨evictFirst conversation, next, evicted + 1⟩ ∧
      Charged conversation image.2 running next := by
  subst shape
  have found : (RequestItem.toolResult toolCallId content (texts ++ .image url :: rest)).images =
      .image url :: rest.filter ContentPart.isImage := texts_filter plain _
  let content' := if noted content then content else content ++ toolNoteSuffix
  let note := if noted content then 0 else toolNoteBytes
  let comma := if texts ++ rest = [] then 0 else 1
  have evicted' : evictFirst
        (before ++ .toolResult toolCallId content (texts ++ .image url :: rest) :: after) =
      before ++ .toolResult toolCallId content' (texts ++ rest) :: after := by
    rw [evictFirst_before imageless (by simp [found]), RequestItem.evictFirst, eraseFirstImage_texts plain]
  refine ⟨(.toolResult before.length, imagePartBytes url),
    toolImages before.length rest ++ imagesFrom (before.length + 1) after,
    running - (imagePartBytes url + comma) + note, ?_, ?_, ?_, .inr ⟨comma, note, ?_, rfl, ?_, ?_, ?_⟩⟩
  · rw [imagesFrom_before imageless, imagesFrom, toolImages_texts plain, toolImages]
    simp
  · rw [evicted', imagesFrom_before imageless, imagesFrom, toolImages_texts plain, Nat.zero_add]
  · rw [evicted', evictImage]
    simp only [List.getElem?_append_right (Nat.le_refl _), Nat.sub_self, List.getElem?_cons_zero,
      eraseFirstImage_texts plain, List.set_append_right _ _ (Nat.le_refl _), List.set_cons_zero,
      List.isEmpty_iff, content', note, comma]
    split <;> rfl
  · simp only [comma]
    split <;> omega
  · have replaced := request_replace before after
      (.toolResult toolCallId content (texts ++ .image url :: rest))
      (.toolResult toolCallId content' (texts ++ rest))
    have old := toolResult_bytes toolCallId content (texts ++ .image url :: rest)
    have new := toolResult_bytes toolCallId content' (texts ++ rest)
    have field := imagesField_remove texts rest (.image url)
    have noteBytes : escapedBytes content' = escapedBytes content + note := by
      simp only [content', note]
      split
      · rfl
      · exact noted_bytes content
    have omitted : comma + omission
        (before ++ .toolResult toolCallId content (texts ++ .image url :: rest) :: after) =
        if texts ++ rest = [] then 12 else 1 := by
      rw [omission_before imageless, omission, if_neg (by simp [found])]
      simp only [RequestItem.omission, comma, ← List.length_eq_zero_iff, List.length_append, List.length_cons]
      split <;> split <;> omega
    rw [evicted', exact']
    omega
  · have totals := partTotal_replace before after
      (.toolResult toolCallId content (texts ++ .image url :: rest))
      (.toolResult toolCallId content' (texts ++ rest))
    simp only [RequestItem.parts, List.map_append, List.map_cons, List.sum_append, List.sum_cons] at totals
    rw [evicted', exact']
    omega
  · rw [shortfall_before imageless, shortfall, if_neg (by simp [found])]
    rfl

end Step

section Loop

variable {conversation : List RequestItem}

theorem evict_first (plain : PlainTails conversation)
    (some' : imagesFrom 0 conversation ≠ []) (running evicted : Nat) :
    ∃ image images next, imagesFrom 0 conversation = image :: images ∧
      imagesFrom 0 (evictFirst conversation) = images ∧
      evictImage ⟨conversation, running, evicted⟩ image = ⟨evictFirst conversation, next, evicted + 1⟩ ∧
      Charged conversation image.2 running next := by
  obtain ⟨before, item, after, shape, imageless, has⟩ := first_item_split some'
  have tails := plain item (by simp [shape])
  cases item with
  | user content more =>
      obtain ⟨texts, url, rest, rfl, texts'⟩ := first_image_split has
      have tail := tails url (by simp [RequestItem.images, ContentPart.isImage])
      exact evict_user imageless texts' (imagePart_exact tail) shape running evicted
  | toolResult toolCallId content images =>
      obtain ⟨texts, url, rest, rfl, texts'⟩ := first_image_split has
      have tail := tails url (by simp [RequestItem.images, ContentPart.isImage])
      exact evict_toolResult imageless texts' (imagePart_exact tail) shape running evicted
  | imageless json => exact absurd rfl has

theorem replaceFirstImage_filter (parts : List ContentPart) :
    (replaceFirstImage parts).filter ContentPart.isImage ⊆ parts.filter ContentPart.isImage := by
  induction parts with
  | nil => exact List.Subset.refl _
  | cons part rest ih =>
      cases part with
      | image url =>
          rw [replaceFirstImage, List.filter_cons_of_neg (by simp [placeholder_text])]
          exact ((List.sublist_cons_self _ _).filter _).subset
      | text words => exact ih

theorem evictFirst_item_images (item : RequestItem) : item.evictFirst.images ⊆ item.images := by
  cases item with
  | user content more => exact replaceFirstImage_filter content
  | toolResult toolCallId content images => exact (List.eraseP_sublist.filter _).subset
  | imageless json => exact List.Subset.refl _

theorem evictFirst_plain (plain : PlainTails conversation) : PlainTails (evictFirst conversation) := by
  induction conversation with
  | nil => exact plain
  | cons item rest ih =>
      have first := plain item List.mem_cons_self
      have later : PlainTails rest := fun other member => plain other (List.mem_cons_of_mem _ member)
      unfold evictFirst
      split
      · intro other member
        rcases List.mem_cons.mp member with rfl | within
        · exact first
        · exact ih later other within
      · intro other member
        rcases List.mem_cons.mp member with rfl | within
        · exact fun url image => first url (evictFirst_item_images item image)
        · exact later other within

theorem evictOldest_plain (plain : PlainTails conversation) (count : Nat) :
    PlainTails (evictOldest count conversation) := by
  induction count generalizing conversation with
  | zero => exact plain
  | succ count ih => exact ih (evictFirst_plain plain)

theorem userImages_length (item part : Nat) (parts : List ContentPart) :
    (userImages item part parts).length = (parts.filter ContentPart.isImage).length := by
  induction parts generalizing part with
  | nil => rfl
  | cons first rest ih =>
      cases first with
      | image url => rw [userImages, List.length_cons, ih, List.filter_cons_of_pos rfl, List.length_cons]
      | text words => exact ih (part + 1)

theorem toolImages_length (item : Nat) (parts : List ContentPart) :
    (toolImages item parts).length = (parts.filter ContentPart.isImage).length := by
  induction parts with
  | nil => rfl
  | cons first rest ih =>
      cases first with
      | image url => rw [toolImages, List.length_cons, ih, List.filter_cons_of_pos rfl, List.length_cons]
      | text words => exact ih

theorem imagesFrom_length (start : Nat) (conversation : List RequestItem) :
    (imagesFrom start conversation).length = inlineImageCount conversation := by
  induction conversation generalizing start with
  | nil => rfl
  | cons item rest ih =>
      rw [inlineImageCount, List.map_cons, List.sum_cons]
      rw [inlineImageCount] at ih
      cases item with
      | user content more => rw [imagesFrom, List.length_append, userImages_length, ih, RequestItem.images]
      | toolResult toolCallId content images =>
          rw [imagesFrom, List.length_append, toolImages_length, ih, RequestItem.images]
      | imageless json => simp [imagesFrom, ih, RequestItem.images]

/-- Where the estimate stands: it is off by what user images fell short and by the fields
that were dropped, and it covers all images that are left. -/
def Accounts (conversation : List RequestItem) (running under above : Nat) : Prop :=
  running + under = requestBytes conversation + above ∧
    under + ((imagesFrom 0 conversation).map Prod.snd).sum ≤ partTotal conversation

theorem accounts_step {image : ImageLocation × Nat}
    {images : List (ImageLocation × Nat)} {running next under above : Nat}
    (first : imagesFrom 0 conversation = image :: images)
    (later : imagesFrom 0 (evictFirst conversation) = images)
    (charged : Charged conversation image.2 running next)
    (accounts : Accounts conversation running under above) :
    Accounts (evictFirst conversation) next (under + shortfall conversation)
      (above + omission conversation) := by
  obtain ⟨exact', room⟩ := accounts
  have covered := partTotal_le conversation
  rw [first, List.map_cons, List.sum_cons] at room
  -- the estimate is at least the size of the image, so no subtraction saturates
  have enough : image.2 + 2 ≤ running := by omega
  rw [Accounts, later]
  rcases charged with ⟨estimate, bytes, total, short, omitted⟩ | ⟨comma, note, one, estimate, bytes, total, short⟩
  · constructor <;> omega
  · constructor <;> omega

theorem evictions (plain : PlainTails conversation)
    {running under above : Nat} (accounts : Accounts conversation running under above) (evicted : Nat)
    {count : Nat} (within : count ≤ (imagesFrom 0 conversation).length) :
    ∃ next, Runs.run evictImage ⟨conversation, running, evicted⟩ ((imagesFrom 0 conversation).take count) =
        ⟨evictOldest count conversation, next, evicted + count⟩ ∧
      next + (under + shortfallAfter count conversation) =
        requestBytes (evictOldest count conversation) + (above + omittedAfter count conversation) := by
  induction count generalizing conversation running under above evicted with
  | zero => exact ⟨running, rfl, accounts.1⟩
  | succ count ih =>
      have some' : imagesFrom 0 conversation ≠ [] := by
        intro none'
        simp [none'] at within
      obtain ⟨image, images, next, first, later, step, charged⟩ := evict_first plain some' running evicted
      have rest := @ih (evictFirst conversation) (evictFirst_plain plain) next _ _
        (accounts_step first later charged accounts) (evicted + 1)
        (by rw [later]; simp [first] at within; exact within)
      obtain ⟨final, run, drift⟩ := rest
      refine ⟨final, ?_, ?_⟩
      · rw [first, List.take_succ_cons, Runs.run_cons, step, ← later, run, evictOldest]
        congr 1
        omega
      · rw [evictOldest, shortfallAfter, omittedAfter]
        omega

theorem evictOldest_count (plain : PlainTails conversation) {count : Nat}
    (within : count ≤ inlineImageCount conversation) :
    inlineImageCount (evictOldest count conversation) + count = inlineImageCount conversation := by
  induction count generalizing conversation with
  | zero => rfl
  | succ count ih =>
      have some' : imagesFrom 0 conversation ≠ [] := by
        intro none'
        rw [← imagesFrom_length 0, none'] at within
        simp at within
      obtain ⟨image, images, next, first, later, -⟩ := evict_first plain some' 0 0
      have counted := imagesFrom_length 0 conversation
      have left := imagesFrom_length 0 (evictFirst conversation)
      rw [first, List.length_cons] at counted
      rw [later] at left
      have rest := ih (evictFirst_plain plain) (by omega)
      rw [evictOldest]
      omega

theorem userImages_total {item part : Nat} {parts : List ContentPart}
    (tails : ∀ url, .image url ∈ parts.filter ContentPart.isImage → PlainTail url) :
    ((userImages item part parts).map Prod.snd).sum ≤ (parts.map partBytes).sum := by
  induction parts generalizing part with
  | nil => exact Nat.le_refl 0
  | cons first rest ih =>
      have later := @ih (part + 1) fun url member =>
        tails url (((List.sublist_cons_self _ _).filter _).subset member)
      cases first with
      | image url =>
          rw [userImages, List.map_cons, List.sum_cons, List.map_cons, List.sum_cons,
            imagePart_exact (tails url (by simp [ContentPart.isImage]))]
          omega
      | text words =>
          rw [userImages, List.map_cons, List.sum_cons]
          omega

theorem toolImages_total {item : Nat} {parts : List ContentPart}
    (tails : ∀ url, .image url ∈ parts.filter ContentPart.isImage → PlainTail url) :
    ((toolImages item parts).map Prod.snd).sum ≤ (parts.map partBytes).sum := by
  induction parts with
  | nil => exact Nat.le_refl 0
  | cons first rest ih =>
      have later := ih fun url member =>
        tails url (((List.sublist_cons_self _ _).filter _).subset member)
      cases first with
      | image url =>
          rw [toolImages, List.map_cons, List.sum_cons, List.map_cons, List.sum_cons,
            imagePart_exact (tails url (by simp [ContentPart.isImage]))]
          omega
      | text words =>
          rw [toolImages, List.map_cons, List.sum_cons]
          omega

theorem images_total (plain : PlainTails conversation) (start : Nat) :
    ((imagesFrom start conversation).map Prod.snd).sum ≤ partTotal conversation := by
  induction conversation generalizing start with
  | nil => exact Nat.le_refl 0
  | cons item rest ih =>
      have later := ih (fun other member => plain other (List.mem_cons_of_mem _ member)) (start + 1)
      have tails := plain item List.mem_cons_self
      rw [partTotal, List.map_cons, List.sum_cons]
      rw [partTotal] at later
      cases item with
      | user content more =>
          rw [imagesFrom, List.map_append, List.sum_append]
          exact Nat.add_le_add (userImages_total tails) later
      | toolResult toolCallId content images =>
          rw [imagesFrom, List.map_append, List.sum_append]
          exact Nat.add_le_add (toolImages_total tails) later
      | imageless json => exact le_trans later (Nat.le_add_left _ _)

theorem accounts_start (plain : PlainTails conversation) :
    Accounts conversation (requestBytes conversation) 0 0 := by
  refine ⟨rfl, ?_⟩
  rw [Nat.zero_add]
  exact images_total plain 0

end Loop

section Budget

/-- Where the loop stops: the drift decides on which side of the target the estimate is. -/
def StopsAt (conversation : List RequestItem) (target count : Nat) : Prop :=
  count ≤ inlineImageCount conversation ∧
    (∀ fewer < count,
      target + shortfallAfter fewer conversation <
        requestBytes (evictOldest fewer conversation) + omittedAfter fewer conversation) ∧
    (count < inlineImageCount conversation →
      requestBytes (evictOldest count conversation) + omittedAfter count conversation ≤
        target + shortfallAfter count conversation)

theorem stopsAt_unique {conversation : List RequestItem} {target first second : Nat}
    (one : StopsAt conversation target first) (other : StopsAt conversation target second) :
    first = second := by
  rcases Nat.lt_trichotomy first second with less | same | more
  · have low := one.2.2 (lt_of_lt_of_le less other.1)
    have high := other.2.1 first less
    omega
  · exact same
  · have low := other.2.2 (lt_of_lt_of_le more one.1)
    have high := one.2.1 second more
    omega

theorem evictImagesToBudget_stops {conversation : List RequestItem} (plain : PlainTails conversation)
    (target : Nat) :
    ∃ count running, StopsAt conversation target count ∧
      evictImagesToBudget conversation (requestBytes conversation) target =
        ⟨evictOldest count conversation, running, count⟩ := by
  let images := imagesFrom 0 conversation
  let start : Eviction := ⟨conversation, requestBytes conversation, 0⟩
  let measure := fun position => (Runs.run evictImage start (images.take position)).running
  have length : images.length = inlineImageCount conversation := imagesFrom_length 0 conversation
  -- up to the last image the estimate is exact but for the drift
  have drift : ∀ position ≤ images.length, measure position + shortfallAfter position conversation =
      requestBytes (evictOldest position conversation) + omittedAfter position conversation := by
    intro position within
    obtain ⟨next, run, exact'⟩ := evictions plain (accounts_start plain) 0 within
    have same : measure position = next := congrArg Eviction.running run
    omega
  obtain ⟨within, above, fits⟩ := firstFit_eq_iff.mp (rfl : firstFit measure target images.length = _)
  obtain ⟨next, run, -⟩ := evictions plain (accounts_start plain) 0 within
  refine ⟨firstFit measure target images.length, next, ⟨?_, ?_, ?_⟩, ?_⟩
  · rw [← length]
    exact within
  · intro fewer less
    have here := above fewer less
    have exact' := drift fewer (by omega)
    omega
  · intro more
    have here := fits (by omega)
    have exact' := drift _ within
    omega
  · rw [evictImagesToBudget, runUntil_eq]
    rw [Nat.zero_add] at run
    exact run

variable {items : List RequestItem}

theorem applyImageBudget_stops (plain : PlainTails items)
    {trigger target : Nat} (reached : trigger ≤ conversationBodyBytes items) :
    ∃ count, StopsAt items target count ∧
      (applyImageBudgetWithLimits items trigger target).items = evictOldest count items ∧
      (applyImageBudgetWithLimits items trigger target).outcome.evicted = count ∧
      (applyImageBudgetWithLimits items trigger target).outcome.bodyBytesAfter =
        requestBytes (evictOldest count items) := by
  have body := conversationBodyBytes_exact plain
  rw [body] at reached
  by_cases low : target < requestBytes items
  · obtain ⟨count, running, stops, evicted⟩ := evictImagesToBudget_stops plain target
    refine ⟨count, stops, ?_⟩
    have needed : (decide (trigger ≤ requestBytes items) && decide (target < requestBytes items)) = true := by
      simp [reached, low]
    simp only [applyImageBudgetWithLimits, body, needed, if_true, evicted, true_and]
    split
    next none' => rw [none', evictOldest]
    next => exact conversationBodyBytes_exact (evictOldest_plain plain count)
  · refine ⟨0, ⟨Nat.zero_le _, by simp, fun _ => ?_⟩, ?_⟩
    · simp only [evictOldest, omittedAfter, shortfallAfter]
      omega
    · have idle : (decide (trigger ≤ requestBytes items) && decide (target < requestBytes items)) = false := by
        simp [low]
      simp only [applyImageBudgetWithLimits, body, idle, Bool.false_eq_true, if_false, evictOldest, if_true,
        true_and]

/-- The oldest images are gone, and as few as make the serialized conversation fit. -/
def EvictsLeast (items : List RequestItem) (target : Nat) (budgeted : BudgetedConversation) : Prop :=
  ∃ count, budgeted.items = evictOldest count items ∧ budgeted.outcome.evicted = count ∧
    ((requestBytes (evictOldest count items) ≤ target ∧
        ∀ fewer < count, target < requestBytes (evictOldest fewer items)) ∨
      (count = inlineImageCount items ∧
        ∀ fewer ≤ count, target < requestBytes (evictOldest fewer items))) ∧
    (budgeted.outcome.bodyBytesAfter ≤ target ∨ inlineImageCount budgeted.items = 0)

/-- Before the conversation fits, what user images fall short of the placeholder does not make
up for what is still too much; when it fits, the dropped fields fit as well. -/
def DriftSpares (items : List RequestItem) (target : Nat) : Prop :=
  (∀ fewer < leastEvictions items target,
    target + shortfallAfter fewer items <
      requestBytes (evictOldest fewer items) + omittedAfter fewer items) ∧
  (leastEvictions items target < inlineImageCount items →
    requestBytes (evictOldest (leastEvictions items target) items) +
        omittedAfter (leastEvictions items target) items ≤
      target + shortfallAfter (leastEvictions items target) items)

instance driftSpares_decidable (items : List RequestItem) (target : Nat) :
    Decidable (DriftSpares items target) :=
  inferInstanceAs (Decidable (_ ∧ _))

theorem driftSpares_iff (items : List RequestItem) (target : Nat) :
    DriftSpares items target ↔ StopsAt items target (leastEvictions items target) :=
  (and_iff_right (firstFit_le _ _ _)).symm

theorem leastEvictions_eq {target count : Nat} : leastEvictions items target = count ↔
      count ≤ inlineImageCount items ∧
        (∀ fewer < count, target < requestBytes (evictOldest fewer items)) ∧
        (count < inlineImageCount items → requestBytes (evictOldest count items) ≤ target) :=
  firstFit_eq_iff

theorem evictsLeast_iff_stops (plain : PlainTails items) {trigger : Nat}
    (target : Nat) (reached : trigger ≤ conversationBodyBytes items) :
    EvictsLeast items target (applyImageBudgetWithLimits items trigger target) ↔
      StopsAt items target (leastEvictions items target) := by
  obtain ⟨stop, stops, same, evicted, after⟩ := @applyImageBudget_stops items plain trigger target reached
  constructor
  · rintro ⟨count, -, counted, least, -⟩
    obtain rfl : stop = count := evicted.symm.trans counted
    have found : leastEvictions items target = stop := by
      rw [leastEvictions_eq]
      rcases least with ⟨fits, above⟩ | ⟨all, above⟩
      · exact ⟨stops.1, above, fun _ => fits⟩
      · exact ⟨stops.1, fun fewer less => above fewer (Nat.le_of_lt less), fun more => by omega⟩
    rwa [found]
  · intro spared
    obtain rfl := stopsAt_unique stops spared
    obtain ⟨within, above, fits⟩ := leastEvictions_eq.mp (rfl : leastEvictions items target = _)
    refine ⟨leastEvictions items target, same, evicted, ?_, ?_⟩
    · by_cases fit : requestBytes (evictOldest (leastEvictions items target) items) ≤ target
      · exact .inl ⟨fit, above⟩
      · refine .inr ⟨by_contra fun fewer => fit (fits (by omega)), ?_⟩
        intro fewer most
        rcases Nat.lt_or_eq_of_le most with less | rfl
        · exact above fewer less
        · omega
    · rcases Nat.lt_or_eq_of_le within with more | all
      · rw [after]
        exact .inl (fits more)
      · have gone := evictOldest_count plain within
        rw [same]
        exact .inr (by omega)

theorem evicts_least_iff (items : List RequestItem) (trigger target : Nat) (plain : PlainTails items)
    (reached : trigger ≤ conversationBodyBytes items) :
    EvictsLeast items target (applyImageBudgetWithLimits items trigger target) ↔
      DriftSpares items target := by
  rw [driftSpares_iff]
  exact evictsLeast_iff_stops plain target reached

def inlineImage (size : Nat) : Text := "data:image/png;base64,".toList ++ List.replicate size 'A'

theorem inlineImage_plain (size : Nat) : PlainTail (inlineImage size) := by
  intro header tail split inline
  have parts : splitOnComma (inlineImage size) = some ("data:image/png;base64".toList, List.replicate size 'A') := rfl
  rw [parts] at split
  cases split
  intro c within
  rw [List.eq_of_mem_replicate within]
  rfl

def fourImages : List RequestItem :=
  [.user [.text "look".toList, .image (inlineImage 200)] [],
    .toolResult "c".toList "shots".toList [.image (inlineImage 240), .image (inlineImage 280)],
    .user [.image (inlineImage 320)] []]

theorem evicts_two_of_four : EvictsLeast fourImages 1300 (applyImageBudgetWithLimits fourImages 1350 1300) := by
  have plain : PlainTails fourImages := by
    simp [fourImages, PlainTails, RequestItem.images, inlineImage_plain]
  exact (evicts_least_iff fourImages 1350 1300 plain (by decide +kernel)).mpr (by decide +kernel)

def screenshot : Text := "data:image/png;base64,".toList ++ List.replicate 300 'A'

def emptiedResult : List RequestItem :=
  [.toolResult "c".toList "t".toList [.image screenshot], .user [.image "u".toList] []]

theorem emptiedResult_plain : PlainTails emptiedResult := by
  intro item member url image header tail split inline
  rcases List.mem_pair.mp member with rfl | rfl
  · cases List.mem_singleton.mp image
    have parts : splitOnComma screenshot =
        some ("data:image/png;base64".toList, List.replicate 300 'A') := by decide +kernel
    rw [parts] at split
    cases split
    intro c within
    rw [List.eq_of_mem_replicate within]
    rfl
  · cases List.mem_singleton.mp image
    cases split

theorem emptied_shrinks (toolCallId content : Text) {url : Text} (rest : List RequestItem)
    (large : toolNoteBytes ≤ partBytes (.image url)) :
    requestBytes (.toolResult toolCallId (content ++ toolNoteSuffix) [] :: rest) <
      requestBytes (.toolResult toolCallId content [.image url] :: rest) := by
  -- The image goes with its field, and the note that comes is shorter than they are.
  have replaced := request_replace [] rest (.toolResult toolCallId content [.image url])
    (.toolResult toolCallId (content ++ toolNoteSuffix) [])
  have old := toolResult_bytes toolCallId content [.image url]
  have new := toolResult_bytes toolCallId (content ++ toolNoteSuffix) []
  have note := noted_bytes content
  have field : imagesFieldBytes [.image url] = partBytes (.image url) + 12 := by
    rw [imagesFieldBytes, if_neg (by simp), List.map_singleton, joinedBytes, List.sum_singleton,
      List.length_singleton, Nat.sub_self, Nat.add_zero]
  have none' : imagesFieldBytes [] = 0 := rfl
  simp only [List.nil_append] at replaced
  omega

/-- The conversation fits without the first image, and the second one goes as well. -/
theorem emptied_result_evicts_too_much :
    ¬ ∀ (items : List RequestItem) (trigger target : Nat), PlainTails items → target ≤ trigger →
      trigger ≤ conversationBodyBytes items →
      EvictsLeast items target (applyImageBudgetWithLimits items trigger target) := by
  intro claim
  let target := requestBytes (evictOldest 1 emptiedResult)
  have unnoted : noted "t".toList = false := by decide +kernel
  have first : evictOldest 1 emptiedResult =
      [.toolResult "c".toList ("t".toList ++ toolNoteSuffix) [], .user [.image "u".toList] []] := by
    rw [evictOldest, evictOldest, emptiedResult, evictFirst,
      if_neg (by simp [RequestItem.images, ContentPart.isImage]), RequestItem.evictFirst, unnoted]
    rfl
  have large : toolNoteBytes ≤ partBytes (.image screenshot) := by decide +kernel
  have less : target < requestBytes emptiedResult := by
    simp only [target, first]
    exact emptied_shrinks _ _ _ large
  have exact' := conversationBodyBytes_exact emptiedResult_plain
  have reached : target ≤ conversationBodyBytes emptiedResult := by omega
  have stops := (evictsLeast_iff_stops emptiedResult_plain target reached).mp
    (claim emptiedResult target target emptiedResult_plain (Nat.le_refl _) reached)
  have least : leastEvictions emptiedResult target = 1 := by
    rw [leastEvictions_eq]
    refine ⟨by decide, ?_, fun _ => Nat.le_refl _⟩
    intro fewer before
    obtain rfl : fewer = 0 := by omega
    exact less
  rw [least] at stops
  have drift := stops.2.2 (by decide)
  -- the estimate still counts the empty field
  have field : omittedAfter 1 emptiedResult = 12 := rfl
  have short : shortfallAfter 1 emptiedResult = 0 := rfl
  omega

end Budget

end GrokPi.Chat
