import GrokPi.Chat.Conversation
import GrokPi.Shared.FirstFit
import GrokPi.Shared.JsonBytes

set_option autoImplicit false

namespace GrokPi.Chat

open Json Text

section Wire

def ContentPart.isImage : ContentPart → Bool
  | .image _ => true
  | .text _ => false

def ContentPart.toJson : ContentPart → Json
  | .text words => .object [("type".toList, .string "text".toList), ("text".toList, .string words)]
  | .image url => .object [("type".toList, .string "image".toList), ("url".toList, .string url)]

/-- An item of the request as it is serialized. `more` are the members behind the content of
a user item; items of the other kinds hold no images and go out as they are. -/
inductive RequestItem where
  | user (content : List ContentPart) (more : List (Text × Json))
  | toolResult (toolCallId : Text) (content : Text) (images : List ContentPart)
  | imageless (json : Json)

def RequestItem.toJson : RequestItem → Json
  | .user content more =>
      .object
        (("type".toList, .string "user".toList) ::
          ("content".toList, .array (content.map ContentPart.toJson)) :: more)
  | .toolResult toolCallId content images =>
      .object
        (("type".toList, .string "tool_result".toList) ::
          ("tool_call_id".toList, .string toolCallId) ::
          ("content".toList, .string content) ::
          if images.isEmpty then [] else [("images".toList, .array (images.map ContentPart.toJson))])
  | .imageless json => json

def RequestItem.images : RequestItem → List ContentPart
  | .user content _ => content.filter ContentPart.isImage
  | .toolResult _ _ images => images.filter ContentPart.isImage
  | .imageless _ => []

def requestBytes (conversation : List RequestItem) : Nat :=
  serializedBytes (.array (conversation.map RequestItem.toJson))

def inlineImageCount (conversation : List RequestItem) : Nat :=
  (conversation.map fun item => item.images.length).sum

end Wire

section Measuring

def splitOnComma : Text → Option (Text × Text)
  | [] => none
  | c :: rest =>
      if c = ',' then some ([], rest) else (splitOnComma rest).map fun parts => (c :: parts.1, parts.2)

def isInlineHeader (header : Text) : Bool :=
  "data:".toList.isPrefixOf header && ";base64".toList.isSuffixOf header

def encodedUrlBytes (url : Text) : Nat :=
  match splitOnComma url with
  | none => serializedBytes (.string url) - 2
  | some (header, base64Tail) =>
      if isInlineHeader header then serializedBytes (.string header) - 2 + 1 + byteLen base64Tail
      else serializedBytes (.string url) - 2

def imagePartFrameBytes : Nat := serializedBytes (ContentPart.image []).toJson

def imagePartBytes (url : Text) : Nat := imagePartFrameBytes + encodedUrlBytes url

def ContentPart.blank : ContentPart → ContentPart
  | .image _ => .image []
  | part => part

def ContentPart.urlBytes : ContentPart → Nat
  | .image url => encodedUrlBytes url
  | .text _ => 0

def RequestItem.blank : RequestItem → RequestItem
  | .user content more => .user (content.map ContentPart.blank) more
  | .toolResult toolCallId content images => .toolResult toolCallId content (images.map ContentPart.blank)
  | item => item

def RequestItem.urlBytes : RequestItem → Nat
  | .user content _ => (content.map ContentPart.urlBytes).sum
  | .toolResult _ _ images => (images.map ContentPart.urlBytes).sum
  | .imageless _ => 0

def conversationBodyBytes (conversation : List RequestItem) : Nat :=
  requestBytes (conversation.map RequestItem.blank) + (conversation.map RequestItem.urlBytes).sum

end Measuring

section Eviction

def imageCompactPlaceholder : Text :=
  "[An earlier image was removed to keep the request within its size limit and is no longer ".toList ++
    "visible. Do not describe or reason about its contents from memory; ask the user to ".toList ++
    "re-share it if you need to see it again.]".toList

def toolImageCompactNote : Text :=
  "[One or more images from this tool result were removed to keep the request within its size ".toList ++
    "limit and are no longer visible. Do not describe or reason about their contents from ".toList ++
    "memory.]".toList

def placeholder : ContentPart := .text imageCompactPlaceholder

def placeholderBytes : Nat := serializedBytes placeholder.toJson

def toolNoteSuffix : Text := "\n\n".toList ++ toolImageCompactNote

def toolNoteBytes : Nat := serializedBytes (.string toolNoteSuffix) - 2

inductive ImageLocation where
  | user (item part : Nat)
  | toolResult (item : Nat)
  deriving DecidableEq

def userImages (item : Nat) : Nat → List ContentPart → List (ImageLocation × Nat)
  | _, [] => []
  | part, .image url :: rest => (.user item part, imagePartBytes url) :: userImages item (part + 1) rest
  | part, .text _ :: rest => userImages item (part + 1) rest

def toolImages (item : Nat) : List ContentPart → List (ImageLocation × Nat)
  | [] => []
  | .image url :: rest => (.toolResult item, imagePartBytes url) :: toolImages item rest
  | .text _ :: rest => toolImages item rest

def imagesFrom : Nat → List RequestItem → List (ImageLocation × Nat)
  | _, [] => []
  | item, .user content _ :: rest => userImages item 0 content ++ imagesFrom (item + 1) rest
  | item, .toolResult _ _ images :: rest => toolImages item images ++ imagesFrom (item + 1) rest
  | item, .imageless _ :: rest => imagesFrom (item + 1) rest

structure Eviction where
  conversation : List RequestItem
  running : Nat
  evicted : Nat

def noted (content : Text) : Bool := (find toolImageCompactNote content).isSome

def evictImage (state : Eviction) (image : ImageLocation × Nat) : Eviction :=
  match image with
  | (.user item part, imageBytes) =>
      match state.conversation[item]? with
      | some (.user content more) =>
          { conversation := state.conversation.set item (.user (content.set part placeholder) more)
            running := state.running - (imageBytes - placeholderBytes)
            evicted := state.evicted + 1 }
      -- no location leads to another item
      | _ => state
  | (.toolResult item, imageBytes) =>
      match state.conversation[item]? with
      | some (.toolResult toolCallId content images) =>
          let images := images.eraseP ContentPart.isImage
          let running := state.running - (imageBytes + if images.isEmpty then 0 else 1)
          if noted content then
            { conversation := state.conversation.set item (.toolResult toolCallId content images)
              running := running
              evicted := state.evicted + 1 }
          else
            { conversation :=
                state.conversation.set item (.toolResult toolCallId (content ++ toolNoteSuffix) images)
              running := running + toolNoteBytes
              evicted := state.evicted + 1 }
      | _ => state

def evictImagesToBudget (conversation : List RequestItem) (currentBytes targetBytes : Nat) : Eviction :=
  runUntil evictImage Eviction.running targetBytes ⟨conversation, currentBytes, 0⟩
    (imagesFrom 0 conversation)

structure ImageBudgetOutcome where
  bodyBytes : Nat
  bodyBytesAfter : Nat
  inlineImages : Nat
  needsImageCompaction : Bool
  evicted : Nat
  deriving DecidableEq

structure BudgetedConversation where
  items : List RequestItem
  outcome : ImageBudgetOutcome

def applyImageBudgetWithLimits (items : List RequestItem) (triggerBytes reclaimTargetBytes : Nat) :
    BudgetedConversation :=
  let bodyBytes := conversationBodyBytes items
  let needsImageCompaction := decide (triggerBytes ≤ bodyBytes)
  let eviction : Eviction :=
    if needsImageCompaction && decide (reclaimTargetBytes < bodyBytes) then
      evictImagesToBudget items bodyBytes reclaimTargetBytes
    else ⟨items, bodyBytes, 0⟩
  let bodyBytesAfter :=
    if eviction.evicted = 0 then bodyBytes else conversationBodyBytes eviction.conversation
  { items := eviction.conversation
    outcome :=
      { bodyBytes := bodyBytes
        bodyBytesAfter := bodyBytesAfter
        inlineImages := inlineImageCount items
        needsImageCompaction := needsImageCompaction
        evicted := eviction.evicted } }

end Eviction

section Oldest

def replaceFirstImage : List ContentPart → List ContentPart
  | [] => []
  | .image _ :: rest => placeholder :: rest
  | .text words :: rest => .text words :: replaceFirstImage rest

def RequestItem.evictFirst : RequestItem → RequestItem
  | .user content more => .user (replaceFirstImage content) more
  | .toolResult toolCallId content images =>
      .toolResult toolCallId (if noted content then content else content ++ toolNoteSuffix)
        (images.eraseP ContentPart.isImage)
  | item => item

def evictFirst : List RequestItem → List RequestItem
  | [] => []
  | item :: rest => if item.images = [] then item :: evictFirst rest else item.evictFirst :: rest

def evictOldest : Nat → List RequestItem → List RequestItem
  | 0, conversation => conversation
  | count + 1, conversation => evictOldest count (evictFirst conversation)

def RequestItem.shortfall : RequestItem → Nat
  | .user content _ =>
      match content.filter ContentPart.isImage with
      | [] => 0
      | image :: _ => placeholderBytes - serializedBytes image.toJson
  | _ => 0

def shortfall : List RequestItem → Nat
  | [] => 0
  | item :: rest => if item.images = [] then shortfall rest else item.shortfall

def RequestItem.omission : RequestItem → Nat
  | .toolResult _ _ images => if images.length = 1 then 12 else 0
  | _ => 0

def omission : List RequestItem → Nat
  | [] => 0
  | item :: rest => if item.images = [] then omission rest else item.omission

def shortfallAfter : Nat → List RequestItem → Nat
  | 0, _ => 0
  | count + 1, conversation => shortfall conversation + shortfallAfter count (evictFirst conversation)

def omittedAfter : Nat → List RequestItem → Nat
  | 0, _ => 0
  | count + 1, conversation => omission conversation + omittedAfter count (evictFirst conversation)

/-- The least number of evictions after which the serialized conversation fits, or all. -/
def leastEvictions (conversation : List RequestItem) (target : Nat) : Nat :=
  firstFit (fun count => requestBytes (evictOldest count conversation)) target
    (inlineImageCount conversation)

end Oldest

end GrokPi.Chat
