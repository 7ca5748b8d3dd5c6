import GrokPi.Permission.Policy
import GrokPi.Permission.UrlMatch

set_option autoImplicit false

namespace GrokPi.UrlMatch

open Policy

section Bash

variable {Pattern : Type} (deps : Externals Pattern)

variable {pattern : Text}

end Bash

section Laws

variable {Ipv4 Ipv6 : Type}

/-- What the url crate and the address parser of the library document. -/
structure UrlCrate.Lawful (crate : UrlCrate Ipv4 Ipv6) : Prop where
  ipv6Case : ∀ text, crate.ipv6Parse (Text.lower text) = crate.ipv6Parse text
  hostCase : ∀ text, crate.hostParse (Text.lower text) = crate.hostParse text
  ipv6Plain : ∀ text address, crate.ipv6Parse text = some address →
    ∀ c ∈ text, (hexVal c).isSome ∨ c = ':' ∨ c = '.'
  ipv6Colons : ∀ text address, crate.ipv6Parse text = some address → 2 ≤ text.count ':'
  ipv6NoDot : ∀ text address, crate.ipv6Parse text = some address → text.getLast? ≠ some '.'
  ipv6Shown : ∀ address, crate.ipv6Parse (crate.ipv6Text address) = some address
  hostIpv4Literal : ∀ text address, crate.hostParse text = some (.ipv4 address) →
    text.any Glob.isMeta = false
  -- A host that is an address has a number between any two dots.
  hostIpv4Labels : ∀ text address, crate.hostParse text = some (.ipv4 address) →
    ∀ label ∈ text.splitOn '.', ∀ name, crate.hostParse label ≠ some (.domain name)
  hostIpv6Colons : ∀ text address, crate.hostParse text = some (.ipv6 address) → 2 ≤ text.count ':'
  domainPlain : ∀ url parsed name, crate.parse url = some parsed →
    parsed.host = some (.domain name) → '[' ∉ name
  ipv4Plain : ∀ address, '[' ∉ crate.ipv4Text address

end Laws

section Hosts

variable {Ipv4 Ipv6 : Type} {crate : UrlCrate Ipv4 Ipv6}

@[simp]
theorem isMeta_toLower (c : Char) : Glob.isMeta c.toLower = Glob.isMeta c := by
  have star : c.toLower = '*' ↔ c = '*' := Text.toLower_eq_iff rfl c
  have single : c.toLower = '?' ↔ c = '?' := Text.toLower_eq_iff rfl c
  have bracket : c.toLower = '[' ↔ c = '[' := Text.toLower_eq_iff rfl c
  rw [Bool.eq_iff_iff]
  simp [Glob.isMeta, star, single, bracket]

variable {separator : Char}

variable {authority : Text}

variable {runtime : RuntimeUrl Ipv4 Ipv6}

end Hosts

section Paths

variable {Pattern : Type} {glob : Glob.Crate Pattern}

end Paths

section Coverage

variable {Pattern Ipv4 Ipv6 : Type} [DecidableEq Ipv4] [DecidableEq Ipv6]
variable (crate : UrlCrate Ipv4 Ipv6) (glob : Glob.Crate Pattern)

variable {crate glob} {pattern url : Text}

variable {compiled : CompiledAllow Pattern}

variable {runtime : RuntimeUrl Ipv4 Ipv6}

end Coverage

section Example

def plainUrls : UrlCrate Empty Empty :=
  { parse := fun url =>
      let (scheme, rest) := splitScheme url
      let (authority, path) := splitAuthorityPath rest
      if scheme = some "https".toList ∧ authority.any Char.isAlpha ∧
          authority.all fun c => c.isAlpha || c == '-' || c == '.' then
        some { scheme := "https".toList
               host := some (.domain (Text.lower authority))
               port := none
               path := if path = [] then "/".toList else path }
      else none
    hostParse := fun host => some (.domain (Text.lower host))
    ipv4Text := fun address => nomatch address
    ipv6Text := fun address => nomatch address
    ipv6Parse := fun _ => none
    toCanonical := fun address => nomatch address }

end Example

end GrokPi.UrlMatch
