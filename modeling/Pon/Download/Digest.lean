import Pon.Package.Text

/-!
# Hash policies

A download is checked against the sha256 digests that an index or a lock file lists. The digest is
compared as hexadecimal text, in either case.
-/

namespace Pon.Download

open Package

inductive Error
  | index (message : Text)
  | io (reason : Text)
deriving DecidableEq

def err (parts : List Text) : Error :=
  .index parts.flatten

/-- The entries of `hashes` are in the order of their algorithms. -/
inductive HashPolicy
  | index (hashes : List (Text × Text)) (allowUnhashed : Bool)
  | required (entries : List Text)
deriving DecidableEq

inductive DigestCheck
  | pass
  | mismatch (expected : Text)
deriving DecidableEq

structure ExpectedHashes where
  sha256 : List Text
  display : Text
deriving DecidableEq

def displayHashes (hashes : List Text) : Text :=
  if hashes = [] then "<none>".toList
  else ", ".toList.intercalate (hashes.map ("sha256:".toList ++ ·))

def isSha256 (algorithm : Text) : Bool :=
  eqIgnoreAsciiCase algorithm "sha256".toList

/-- An `algo:hex` entry; without a colon the hash is empty. -/
def entryParts (entry : Text) : Text × Text :=
  (splitOnce ':' entry).getD (entry, [])

/-- The hashes of the entries up to the first unsupported one. -/
def requiredHashes : List Text → Except Error (List Text)
  | [] => .ok []
  | entry :: rest =>
    if isSha256 (entryParts entry).1 then
      (requiredHashes rest).map ((entryParts entry).2 :: ·)
    else
      .error (err ["unsupported hash algorithm `".toList, (entryParts entry).1,
        "`; only sha256 is supported".toList])

def expectedHashes : HashPolicy → Except Error (Option ExpectedHashes)
  | .index hashes allowUnhashed =>
    let sha256 := (hashes.filter fun entry ↦ isSha256 entry.1).map Prod.snd
    if sha256 = [] then
      if allowUnhashed then .ok none
      else
        .error (err [("artifact has no sha256 hash; pass --allow-unhashed to accept unhashed " ++
          "downloads").toList])
    else .ok (some { sha256, display := displayHashes sha256 })
  | .required entries =>
    (requiredHashes entries).map fun sha256 ↦ some { sha256, display := displayHashes sha256 }

def checkDigest (actual : Text) (policy : HashPolicy) : Except Error DigestCheck :=
  match expectedHashes policy with
  | .error error => .error error
  | .ok none => .ok .pass
  | .ok (some expected) =>
    if expected.sha256.any (eqIgnoreAsciiCase · actual) then .ok .pass
    else .ok (.mismatch expected.display)

def hexDigit (value : ℕ) : Char :=
  ("0123456789abcdef".toList).getD value '0'

def hexBytes (bytes : List UInt8) : Text :=
  bytes.flatMap fun byte ↦ [hexDigit (byte.toNat / 16), hexDigit (byte.toNat % 16)]

def hashMismatchError (filename expected actual : Text) : Error :=
  err ["hash mismatch for `".toList, filename, "`: expected ".toList, expected,
    ", got sha256:".toList, actual]

/-- The policy demands a hash. -/
def HashPolicy.demandsHash : HashPolicy → Bool
  | .index hashes allowUnhashed => !allowUnhashed || hashes.any fun entry ↦ isSha256 entry.1
  | .required _ => true

/-- The policy lists the digest. -/
def HashPolicy.Accepts (actual : Text) : HashPolicy → Prop
  | .index hashes _ =>
    ∃ entry ∈ hashes, isSha256 entry.1 = true ∧ eqIgnoreAsciiCase entry.2 actual = true
  | .required entries =>
    ∃ entry ∈ entries, isSha256 (entryParts entry).1 = true ∧
      eqIgnoreAsciiCase (entryParts entry).2 actual = true

theorem mem_requiredHashes {entries hashes : List Text} (h : requiredHashes entries = .ok hashes)
    {hash : Text} (hhash : hash ∈ hashes) :
    ∃ entry ∈ entries, isSha256 (entryParts entry).1 = true ∧ (entryParts entry).2 = hash := by
  induction entries generalizing hashes with
  | nil =>
    cases h
    cases hhash
  | cons entry rest ih =>
    rw [requiredHashes] at h
    split at h
    · rename_i hsha
      cases hrest : requiredHashes rest with
      | error _ =>
        rw [hrest] at h
        cases h
      | ok others =>
        rw [hrest] at h
        cases h
        rcases List.mem_cons.mp hhash with rfl | hmem
        · exact ⟨entry, List.mem_cons_self, hsha, rfl⟩
        · obtain ⟨entry', hentry, hparts⟩ := ih hrest hmem
          exact ⟨entry', List.mem_cons_of_mem _ hentry, hparts⟩
    · cases h

/-- A digest that passes the check of a policy that demands a hash is one the policy lists. -/
theorem checkDigest_pass {actual : Text} {policy : HashPolicy}
    (h : checkDigest actual policy = .ok .pass) (hdemands : policy.demandsHash = true) :
    policy.Accepts actual := by
  unfold checkDigest at h
  split at h
  · cases h
  · rename_i hexpected
    cases policy with
    | index hashes allowUnhashed =>
      simp only [expectedHashes] at hexpected
      split at hexpected
      · rename_i hnil
        rw [List.map_eq_nil_iff, List.filter_eq_nil_iff] at hnil
        split at hexpected
        · rename_i hallow
          simp only [HashPolicy.demandsHash, hallow, Bool.not_true, Bool.false_or,
            List.any_eq_true] at hdemands
          obtain ⟨entry, hmem, hsha⟩ := hdemands
          exact absurd hsha (hnil entry hmem)
        · cases hexpected
      · cases hexpected
    | required entries =>
      simp only [expectedHashes] at hexpected
      cases hrequired : requiredHashes entries <;> rw [hrequired] at hexpected <;> cases hexpected
  · rename_i expected hexpected
    split at h
    · rename_i hany
      obtain ⟨hash, hmem, heq⟩ := List.any_eq_true.mp hany
      cases policy with
      | index hashes allowUnhashed =>
        simp only [expectedHashes] at hexpected
        split at hexpected
        · split at hexpected <;> cases hexpected
        · cases hexpected
          obtain ⟨entry, hentry, rfl⟩ := List.mem_map.mp hmem
          rw [List.mem_filter] at hentry
          exact ⟨entry, hentry.1, hentry.2, heq⟩
      | required entries =>
        simp only [expectedHashes] at hexpected
        cases hrequired : requiredHashes entries with
        | error _ =>
          rw [hrequired] at hexpected
          cases hexpected
        | ok hashes =>
          rw [hrequired] at hexpected
          cases hexpected
          obtain ⟨entry, hentry, hsha, rfl⟩ := mem_requiredHashes hrequired hmem
          exact ⟨entry, hentry, hsha, heq⟩
    · cases h

end Pon.Download
