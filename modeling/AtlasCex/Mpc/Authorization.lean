import AtlasCex.Mpc.Messages
import Mathlib.Data.List.Sort
/-!
# Accepting an authorization proof

| here | there |
| --- | --- |
| `Authority`, `requiredAuthorities`, `satisfies`, `satisfierCount`, `checkTierAuthorization` | `mpc/src/custody.rs:31-190` |
| `validateAuthorization` | `mpc/src/signer.rs:299-365`; `verify_authorization` is the same function |

The single-key signer, the coordinator and every participant accept a proof by this one check. What
a proof that passes it is known to say is `authorization_binds_iff`: everything but its tier, which
is bound only where the authority signed each text for every tier its approvers suffice for.
-/
namespace AtlasCex.Mpc

open Lib (refuse require bind_eq_ok refuse_eq_ok require_eq_ok)

/-! ## Text -/

/-- `char::is_whitespace`: the code points with the property `White_Space`. -/
def isWhitespace (c : Char) : Bool :=
  [0x9, 0xA, 0xB, 0xC, 0xD, 0x20, 0x85, 0xA0, 0x1680, 0x2000, 0x2001, 0x2002, 0x2003, 0x2004,
    0x2005, 0x2006, 0x2007, 0x2008, 0x2009, 0x200A, 0x2028, 0x2029, 0x202F, 0x205F, 0x3000].contains
    c.toNat

def trim (s : List Char) : List Char :=
  ((s.dropWhile isWhitespace).reverse.dropWhile isWhitespace).reverse

def trimmed (s : String) : String := String.ofList (trim s.toList)

def isBlank (s : String) : Bool := (trim s.toList).isEmpty

/-! ## Tiers -/

inductive Authority where
  | riskEngine
  | operator
  | ceremony
deriving DecidableEq, Repr

namespace Authority

def parse (name : List Char) : Option Authority :=
  if trim name = "risk-engine".toList then some riskEngine
  else if trim name = "operator".toList then some operator
  else if trim name = "ceremony".toList then some ceremony
  else none

/-- A human satisfies a requirement for automation, never the reverse. -/
def satisfies (held required : Authority) : Bool :=
  held = required || match required with
    | riskEngine => held = operator || held = ceremony
    | _ => false

def satisfierCount (required : Authority) : Nat :=
  ([riskEngine, operator, ceremony].filter fun held => satisfies held required).length

end Authority

def CustodyTier.requiredAuthorities : CustodyTier → List Authority
  | deposit => []
  | hot => [.riskEngine]
  | warm => [.riskEngine, .operator]
  | cold => [.ceremony]

/-- `authority[:identity]`, joined by `+`. -/
def parseAuthorities (approvedBy : String) : List Authority :=
  (approvedBy.toList.splitOn '+').filterMap fun part => Authority.parse (part.takeWhile (· ≠ ':'))

/-- Each requirement takes an authority of its own out of those available; the first that finds
none is missing. -/
def firstMissing : List Authority → List Authority → Option Authority
  | _, [] => none
  | available, required :: rest =>
    match available.findIdx? (fun held => held.satisfies required) with
    | some index => firstMissing (available.eraseIdx index) rest
    | none => some required

def checkTierAuthorization (tier : CustodyTier) (approvedBy : String) : Option Authority :=
  firstMissing (parseAuthorities approvedBy)
    (tier.requiredAuthorities.insertionSort fun a b => a.satisfierCount ≤ b.satisfierCount)

/-! ## The check -/

variable {Key : Type} (p : Primitives Key)

def validateAuthorization (approvalKey : Option Key) (authorization : AuthorizationProof)
    (payloadHash : Bytes) : Except MpcError Unit := do
  refuse (isBlank authorization.approvedBy = true) (.authorizationRejected "approved_by_empty")
  refuse (isBlank authorization.reference = true) (.authorizationRejected "reference_empty")
  refuse (isBlank authorization.policyVersion = true) (.authorizationRejected "policy_version_empty")
  refuse ((checkTierAuthorization authorization.tierOf authorization.approvedBy).isSome = true)
    (.authorizationRejected "tier_authority_missing")
  match approvalKey with
  | none => pure ()
  | some key =>
    let encoded ← require authorization.signature (.authorizationRejected "authorization_unsigned")
    let bytes ← require (p.base64 (trimmed encoded))
      (.authorizationRejected "authorization_signature_not_base64")
    refuse (bytes.length ≠ 64) (.authorizationRejected "authorization_signature_wrong_length")
    refuse (p.verify key (authorizationMessage authorization payloadHash) bytes = false)
      (.authorizationRejected "authorization_signature_rejected")

variable {p}

/-- The texts every check asks for are there. -/
def AuthorizationProof.Named (proof : AuthorizationProof) : Prop :=
  isBlank proof.approvedBy = false ∧ isBlank proof.reference = false ∧
    isBlank proof.policyVersion = false

theorem validateAuthorization_eq_ok {key : Key} {authorization : AuthorizationProof}
    {payloadHash : Bytes} :
    validateAuthorization p (some key) authorization payloadHash = .ok () ↔
      authorization.Named ∧
        checkTierAuthorization authorization.tierOf authorization.approvedBy = none ∧
        ∃ encoded bytes, authorization.signature = some encoded ∧
          p.base64 (trimmed encoded) = some bytes ∧ bytes.length = 64 ∧
          p.verify key (authorizationMessage authorization payloadHash) bytes = true := by
  simp only [validateAuthorization, bind_eq_ok, require_eq_ok, refuse_eq_ok, Bool.not_eq_false,
    AuthorizationProof.Named, Bool.not_eq_true, Option.isSome_eq_false_iff, Option.isNone_iff_eq_none]
  grind

/-! ## What an accepted proof is known to say -/

/-- The authority's signatures are its own: what verifies under its key, it signed. `issued` is what
it was asked to sign, each proof with its payload (`signAuthorization`). -/
def Unforgeable (p : Primitives Key) (key : Key) (issued : List (AuthorizationProof × Bytes)) :
    Prop :=
  ∀ message bytes, p.verify key message bytes = true →
    ∃ signed ∈ issued, message = Approval.authorizationMessage p.sha256 signed.1 signed.2

/-- Each proof it signed carries a signature that verifies. -/
def Verifies (p : Primitives Key) (key : Key) (issued : List (AuthorizationProof × Bytes)) : Prop :=
  ∀ signed ∈ issued, ∃ encoded bytes, p.base64 (trimmed encoded) = some bytes ∧ bytes.length = 64 ∧
    p.verify key (Approval.authorizationMessage p.sha256 signed.1 signed.2) bytes = true

/-- The fields of the message and the payload of a signed proof are those of another. -/
structure SameText (signed : AuthorizationProof × Bytes) (proof : AuthorizationProof)
    (payload : Bytes) : Prop where
  approvedBy : signed.1.approvedBy = proof.approvedBy
  approvedAt : signed.1.approvedAt = proof.approvedAt
  policyVersion : signed.1.policyVersion = proof.policyVersion
  reference : signed.1.reference = proof.reference
  payload : signed.2 = payload

theorem sameText {signed : AuthorizationProof × Bytes} {proof : AuthorizationProof}
    {payload : Bytes} (hsha : Function.Injective p.sha256)
    (hfree : ∀ f ∈ proof.fields, '\n' ∉ f)
    (h : authorizationMessage proof (p.sha256 payload) =
      Approval.authorizationMessage p.sha256 signed.1 signed.2) : SameText signed proof payload := by
  rw [Approval.authorizationMessage_eq] at h
  obtain ⟨hfields, hhash⟩ := authorizationMessage_inj hfree h
  simp only [AuthorizationProof.fields, List.cons.injEq, String.toList_inj] at hfields
  obtain ⟨hby, hat, hversion, href, -⟩ := hfields
  exact ⟨hby.symm, hat.symm, hversion.symm, href.symm, (hsha hhash).symm⟩

/-- Where the named approvers of a signed text suffice for a tier, the authority signed it for that
tier too. -/
def TiersSigned (issued : List (AuthorizationProof × Bytes)) : Prop :=
  ∀ signed ∈ issued, signed.1.Named → (∀ f ∈ signed.1.fields, '\n' ∉ f) →
    ∀ tier, checkTierAuthorization tier signed.1.approvedBy = none →
      ∃ other ∈ issued, SameText other signed.1 signed.2 ∧ other.1.tierOf = tier

/-- **What an accepted proof binds.** With an approval key configured, a proof that is accepted for a
payload has the approver, time, policy version, reference and payload of one the authority signed.
That its tier is a signed one too holds of every accepted proof exactly where the authority signed
each text for all the tiers its approvers suffice for: the tier is no part of the text. -/
theorem authorization_binds_iff (key : Key) (issued : List (AuthorizationProof × Bytes))
    (hsig : Unforgeable p key issued) (hverifies : Verifies p key issued)
    (hsha : Function.Injective p.sha256) :
    (∀ other otherPayload, Approval.authorizationMessage p.sha256 other otherPayload =
      authorizationMessage other (p.sha256 otherPayload)) ∧
    (∀ proof payload, (∀ f ∈ proof.fields, '\n' ∉ f) →
      validateAuthorization p (some key) proof (p.sha256 payload) = .ok () →
      ∃ signed ∈ issued, SameText signed proof payload) ∧
    ((∀ proof payload, (∀ f ∈ proof.fields, '\n' ∉ f) →
      validateAuthorization p (some key) proof (p.sha256 payload) = .ok () →
      ∃ signed ∈ issued, SameText signed proof payload ∧ signed.1.tierOf = proof.tierOf) ↔
      TiersSigned issued) := by
  have hsame : ∀ proof payload, (∀ f ∈ proof.fields, '\n' ∉ f) →
      validateAuthorization p (some key) proof (p.sha256 payload) = .ok () →
      ∃ signed ∈ issued, SameText signed proof payload := by
    intro proof payload hfree haccept
    obtain ⟨-, -, -, bytes, -, -, -, hverify⟩ := validateAuthorization_eq_ok.1 haccept
    obtain ⟨signed, hmem, hmessage⟩ := hsig _ _ hverify
    exact ⟨signed, hmem, sameText hsha hfree hmessage⟩
  refine ⟨fun other otherPayload => Approval.authorizationMessage_eq _ _ _, hsame, ?_, ?_⟩
  · -- the signature of a text is good for every tier its approvers suffice for
    intro hbinds signed hmem hnamed hfree tier htier
    obtain ⟨encoded, bytes, hbytes, hlength, hverify⟩ := hverifies signed hmem
    rw [Approval.authorizationMessage_eq] at hverify
    let proof := { signed.1 with tier := some tier, signature := some encoded }
    obtain ⟨other, hother, htext, hsigned⟩ := hbinds proof signed.2 hfree
      (validateAuthorization_eq_ok.2 ⟨hnamed, htier, encoded, bytes, rfl, hbytes, hlength, hverify⟩)
    exact ⟨other, hother, ⟨htext.1, htext.2, htext.3, htext.4, htext.5⟩, hsigned⟩
  · intro htiers proof payload hfree haccept
    obtain ⟨⟨happroved, href, hversion⟩, htier, -⟩ := validateAuthorization_eq_ok.1 haccept
    obtain ⟨signed, hmem, htext⟩ := hsame proof payload hfree haccept
    have hfields : signed.1.fields = proof.fields := by
      simp only [AuthorizationProof.fields, htext.approvedBy, htext.approvedAt,
        htext.policyVersion, htext.reference]
    have hnamed : signed.1.Named := by
      rw [AuthorizationProof.Named, htext.approvedBy, htext.reference, htext.policyVersion]
      exact ⟨happroved, href, hversion⟩
    obtain ⟨other, hother, hagain, htierOf⟩ := htiers signed hmem hnamed (hfields ▸ hfree)
      proof.tierOf (htext.approvedBy ▸ htier)
    exact ⟨other, hother, ⟨hagain.1.trans htext.1, hagain.2.trans htext.2, hagain.3.trans htext.3,
      hagain.4.trans htext.4, hagain.5.trans htext.5⟩, htierOf⟩

/-! ## The tier can be edited -/

/-- A movement from the hot tier that an operator approved as well. -/
def hotProof : AuthorizationProof :=
  ⟨"risk-engine+operator:alice", "2026-09-11T12:00:00Z", "1", "withdrawal-1", some .hot, some ""⟩

/-- An authority that has signed one proof for one payload, and a service that accepts exactly its
signature. -/
def oneProof (signed : AuthorizationProof × Bytes) : Primitives Unit where
  sha256 := id
  base64 := fun _ => some (List.replicate 64 0)
  verify := fun _ message _ => message = Approval.authorizationMessage id signed.1 signed.2

theorem oneProof_unforgeable (signed : AuthorizationProof × Bytes) :
    Unforgeable (oneProof signed) () [signed] :=
  fun _ _ h => ⟨signed, List.mem_singleton_self _, of_decide_eq_true h⟩

/-- Signed for the hot tier, accepted for the warm one. -/
theorem tier_edited :
    Unforgeable (oneProof (hotProof, [1])) () [(hotProof, [1])] ∧
    Function.Injective (oneProof (hotProof, [1])).sha256 ∧
    (∀ f ∈ hotProof.fields, '\n' ∉ f) ∧
    validateAuthorization (oneProof (hotProof, [1])) (some ()) { hotProof with tier := some .warm }
      ((oneProof (hotProof, [1])).sha256 [1]) = .ok () ∧
    ¬∃ signed ∈ [(hotProof, ([1] : Bytes))],
      SameText signed { hotProof with tier := some .warm } [1] ∧
      signed.1.tierOf = { hotProof with tier := some .warm }.tierOf := by
  refine ⟨oneProof_unforgeable _, Function.injective_id, by decide +kernel, by decide +kernel, ?_⟩
  rintro ⟨signed, hmem, -, htier⟩
  obtain rfl := List.mem_singleton.1 hmem
  cases htier

/-- A sweep out of the deposit tier, which no other tier accepts. -/
def sweepProof : AuthorizationProof := { hotProof with approvedBy := "sweeper", tier := some .deposit }

theorem authorization_binds_sweep :
    ∃ signed ∈ [(sweepProof, ([1] : Bytes))], SameText signed sweepProof [1] ∧
      signed.1.tierOf = sweepProof.tierOf := by
  have hverifies : Verifies (oneProof (sweepProof, [1])) () [(sweepProof, [1])] := by
    intro signed hmem
    obtain rfl := List.mem_singleton.1 hmem
    exact ⟨"", List.replicate 64 0, rfl, rfl, by decide +kernel⟩
  have htiers : TiersSigned [(sweepProof, [1])] := by
    intro signed hmem _ _ tier htier
    obtain rfl := List.mem_singleton.1 hmem
    have hdeposit : tier = .deposit := by
      cases tier <;> first | rfl | exact absurd htier (by decide +kernel)
    exact ⟨_, hmem, ⟨rfl, rfl, rfl, rfl, rfl⟩, hdeposit.symm⟩
  exact (authorization_binds_iff () [(sweepProof, [1])] (oneProof_unforgeable _) hverifies
    Function.injective_id).2.2.2 htiers sweepProof [1] (by decide +kernel) (by decide +kernel)

end AtlasCex.Mpc
