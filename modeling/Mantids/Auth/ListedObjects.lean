import Mantids.Auth.ObjectSearch

/-! The searches show what the lists show: page after page, each object that matches once. -/

set_option autoImplicit false

namespace Mantids.Auth

open Library

/-- The list of one kind of object, the search over it, and what the words are looked for in. -/
structure Listing (α : Type) [LinearOrder α] where
  listed : OrderedSet α
  found : (sSearchWords : String) → (limit offset : Nat) → List α
  isMatch : (sSearchWords : String) → α → Bool

namespace Listing

section
variable {α β : Type} [LinearOrder α] {listing : Listing α}

/-- A search without words and limit shows what is listed; the pages of a search are consecutive pieces of one
arrangement of what matches. -/
def Agrees (listing : Listing α) : Prop :=
  (∀ offset, (listing.found "" 0 offset).Perm listing.listed.elements) ∧
    ∀ sSearchWords, ∃ ordered : List α,
      ordered.Perm (listing.listed.elements.filter (listing.isMatch sSearchWords)) ∧
        ∀ offset limits, (∀ limit ∈ limits, 0 < limit) →
          pages (listing.found sSearchWords) offset limits = (ordered.drop offset).take limits.sum

end

end Listing

namespace Directory

section
variable (likes : (pattern text : String) → Bool) (now : Time) (db : Directory)

end

inductive ObjectKind where
  | accounts
  | groups
  | applications
  | attribs (appName : String)

section
variable {likes : (pattern text : String) → Bool} {db : Directory}

/-- The attributes are never found, so only an application without any is shown as it is. -/
def Found (db : Directory) : ObjectKind → Prop
  | .attribs appName => ∀ attrib, attrib ∉ db.attribsList appName
  | _ => True

end

end Directory

end Mantids.Auth
