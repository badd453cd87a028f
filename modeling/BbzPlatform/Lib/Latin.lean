import Mathlib.Data.List.Basic

/-!
# Texts of HTTP headers

The headers of a request are read as Latin-1.  These are two functions of Python's library on such
texts: `str.lower`, and `urlsplit` up to the network location of an address.  Which locations with
brackets are taken for the address of a host is a parameter.
-/

namespace Latin

def lowerChar (c : Char) : Char :=
  if 'A' ≤ c ∧ c ≤ 'Z' ∨ 'À' ≤ c ∧ c ≤ 'Þ' ∧ c ≠ '×' then Char.ofNat (c.toNat + 32) else c

/-- `str.lower`. -/
def lower (text : List Char) : List Char := text.map lowerChar

def isSchemeChar (c : Char) : Bool := c.isAlphanum || c ∈ ['+', '-', '.']

/-- The scheme in front of the first colon, and the rest. -/
def splitScheme (url : List Char) : List Char × List Char :=
  let scheme := url.takeWhile (· ≠ ':')
  if ':' ∈ url ∧ scheme.head?.any Char.isAlpha ∧ scheme.all isSchemeChar then
    (lower scheme, url.drop (scheme.length + 1))
  else ([], url)

/-- `urlsplit`, of which the scheme and the network location are returned; `none` if it raises.
Blanks and control characters in front are dropped, and tabs and line ends everywhere. -/
def urlsplit (checkBracketedNetloc : List Char → Bool) (url : List Char) :
    Option (List Char × List Char) :=
  let parts := splitScheme
    ((url.dropWhile (·.toNat ≤ 32)).filter (· ∉ ['\t', '\r', '\n']))
  match parts.2 with
  | '/' :: '/' :: rest =>
    let netloc := rest.takeWhile (· ∉ ['/', '?', '#'])
    if decide ('[' ∈ netloc) ≠ decide (']' ∈ netloc) then none
    else if '[' ∈ netloc ∧ checkBracketedNetloc netloc = false then none
    else some (parts.1, netloc)
  | _ => some (parts.1, [])

example : urlsplit (fun _ => true) " HTTPS://bbz.example:8443/doors?id=1".toList =
    some ("https".toList, "bbz.example:8443".toList) := by decide

example : urlsplit (fun _ => true) "http://[".toList = none := by decide

end Latin
