import AtlasCex.Lib.Checked
import AtlasCex.Lib.Fields
/-!
# What the signatures cover

| here | there |
| --- | --- |
| `MpcError`             | `mpc/src/error.rs` |
| `hexEncode`            | `hex::encode`, and `digest('hex')` of Node: lower case, two digits a byte |
| `CustodyTier`          | `mpc/src/custody.rs:22-29` |
| `AuthorizationProof`, `authorizationMessage` | `mpc/src/signer.rs:43-87` |
| `Approval.authorizationMessage` | `blockchain/src/approval.ts:33-45` |
| `SignedRequest`, `canonicalString` | `mpc/src/auth.rs:26-34`, `:147-156` |

A text is a `String` and stands for its UTF-8 bytes, which determine it. SHA-256, base64 and Ed25519
verification are parameters (`Primitives`).
-/
namespace AtlasCex.Mpc

abbrev Bytes := List UInt8

inductive MpcError where
  | unauthenticated (reason : String)
  | badRequest (reason : String)
  | keyNotFound
  | authorizationRejected (reason : String)
  | storage
  | crypto (reason : String)
  | internal (reason : String)
deriving DecidableEq, Repr

/-- The library functions the messages go through. -/
structure Primitives (Key : Type) where
  sha256 : Bytes → Bytes
  /-- Standard alphabet; `none` when it is not base64. -/
  base64 : String → Option Bytes
  verify : Key → String → Bytes → Bool

/-! ## Hex -/

def hexDigit (n : Nat) : Char := if n < 10 then Char.ofNat (48 + n) else Char.ofNat (87 + n)

def hexChars : Bytes → List Char
  | [] => []
  | b :: bytes => hexDigit (b.toNat / 16) :: hexDigit (b.toNat % 16) :: hexChars bytes

def hexEncode (bytes : Bytes) : String := String.ofList (hexChars bytes)

theorem hexDigit_inj : ∀ m < 16, ∀ n < 16, hexDigit m = hexDigit n → m = n := by decide

theorem hexDigit_ne_newline : ∀ n < 16, hexDigit n ≠ '\n' := by decide

theorem hexChars_inj : ∀ {a b : Bytes}, hexChars a = hexChars b → a = b
  | [], [], _ => rfl
  | [], _ :: _, h => by cases h
  | _ :: _, [], h => by cases h
  | x :: a, y :: b, h => by
    obtain ⟨hhigh, h⟩ := List.cons.inj h
    obtain ⟨hlow, hrest⟩ := List.cons.inj h
    have hx := x.toNat_lt
    have hy := y.toNat_lt
    have hdiv := hexDigit_inj _ (by omega) _ (by omega) hhigh
    have hmod := hexDigit_inj _ (by omega) _ (by omega) hlow
    have hxy : x = y := UInt8.toNat_inj.1 (by omega)
    rw [hxy, hexChars_inj hrest]

theorem newline_notMem_hexChars : ∀ bytes : Bytes, '\n' ∉ hexChars bytes
  | [] => by simp [hexChars]
  | b :: bytes => by
    have hb := b.toNat_lt
    have hhigh := hexDigit_ne_newline (b.toNat / 16) (by omega)
    have hlow := hexDigit_ne_newline (b.toNat % 16) (by omega)
    have hrest := newline_notMem_hexChars bytes
    simp [hexChars, hhigh.symm, hlow.symm, hrest]

/-! ## Authorization proofs -/

inductive CustodyTier where
  | deposit
  | hot
  | warm
  | cold
deriving DecidableEq, Repr

structure AuthorizationProof where
  approvedBy : String
  approvedAt : String
  policyVersion : String
  reference : String
  tier : Option CustodyTier
  signature : Option String
deriving DecidableEq, Repr

/-- The tier a proof names, `hot` if it names none. -/
def AuthorizationProof.tierOf (proof : AuthorizationProof) : CustodyTier := proof.tier.getD .hot

/-- The text the approval authority signs, as the service rebuilds it. -/
def authorizationMessage (proof : AuthorizationProof) (payloadHash : Bytes) : String :=
  proof.approvedBy ++ "\n" ++ proof.approvedAt ++ "\n" ++ proof.policyVersion ++ "\n" ++
    proof.reference ++ "\n" ++ hexEncode payloadHash

/-- The fields of the message, in order. -/
def AuthorizationProof.fields (proof : AuthorizationProof) : List (List Char) :=
  [proof.approvedBy.toList, proof.approvedAt.toList, proof.policyVersion.toList,
    proof.reference.toList]

theorem authorizationMessage_toList (proof : AuthorizationProof) (payloadHash : Bytes) :
    (authorizationMessage proof payloadHash).toList =
      Lib.joinFields '\n' (proof.fields ++ [hexChars payloadHash]) := by
  simp [authorizationMessage, hexEncode, AuthorizationProof.fields, Lib.joinFields]

/-- The message gives back its fields and the hash, if the fields hold no newline. -/
theorem authorizationMessage_inj {proof other : AuthorizationProof} {payloadHash otherHash : Bytes}
    (hfree : ∀ f ∈ proof.fields, '\n' ∉ f)
    (h : authorizationMessage proof payloadHash = authorizationMessage other otherHash) :
    proof.fields = other.fields ∧ payloadHash = otherHash := by
  have hlist := congrArg String.toList h
  rw [authorizationMessage_toList, authorizationMessage_toList] at hlist
  have hjoined := Lib.joinFields_inj (by simp [AuthorizationProof.fields])
    (by
      intro f hf
      rcases List.mem_append.1 hf with hf | hf
      · exact hfree f hf
      · obtain rfl := List.mem_singleton.1 hf
        exact newline_notMem_hexChars payloadHash) hlist
  obtain ⟨hfields, hhash⟩ := List.append_inj hjoined (by simp [AuthorizationProof.fields])
  exact ⟨hfields, hexChars_inj (List.singleton_inj.1 hhash)⟩

end AtlasCex.Mpc

namespace AtlasCex.Approval

open Mpc (AuthorizationProof Bytes hexEncode)

/-- `Array.prototype.join`. -/
def join (sep : String) : List String → String
  | [] => ""
  | [s] => s
  | s :: t :: rest => s ++ sep ++ join sep (t :: rest)

/-- The text the approval authority signs, as it builds it. -/
def authorizationMessage (sha256 : Bytes → Bytes) (proof : AuthorizationProof) (payload : Bytes) :
    String :=
  join "\n" [proof.approvedBy, proof.approvedAt, proof.policyVersion, proof.reference,
    hexEncode (sha256 payload)]

/-- Both languages encode a proof the same way. -/
theorem authorizationMessage_eq (sha256 : Bytes → Bytes) (proof : AuthorizationProof)
    (payload : Bytes) :
    authorizationMessage sha256 proof payload = Mpc.authorizationMessage proof (sha256 payload) := by
  apply String.ext
  simp [authorizationMessage, join, Mpc.authorizationMessage]

end AtlasCex.Approval

namespace AtlasCex.Mpc

/-! ## Caller requests -/

structure SignedRequest where
  method : String
  path : String
  requestId : String
  payloadHash : Bytes
  timestamp : Int
deriving DecidableEq, Repr

/-- The text a caller signs. -/
def canonicalString (request : SignedRequest) : String :=
  request.method ++ "\n" ++ request.path ++ "\n" ++ request.requestId ++ "\n" ++
    hexEncode request.payloadHash ++ "\n" ++ toString request.timestamp

/-- At one endpoint and timestamp the text gives back the request id, newlines and all, and the
hash. -/
theorem canonicalString_inj {a b : SignedRequest} (hmethod : a.method = b.method)
    (hpath : a.path = b.path) (htimestamp : a.timestamp = b.timestamp)
    (h : canonicalString a = canonicalString b) :
    a.requestId = b.requestId ∧ a.payloadHash = b.payloadHash := by
  have hlist := congrArg String.toList h
  simp only [canonicalString, hmethod, hpath, htimestamp, hexEncode, String.toList_append,
    String.toList_ofList, List.append_assoc, List.append_cancel_left_eq] at hlist
  have hbody : (a.requestId.toList ++ '\n' :: hexChars a.payloadHash) ++
        ("\n".toList ++ (toString b.timestamp).toList) =
      (b.requestId.toList ++ '\n' :: hexChars b.payloadHash) ++
        ("\n".toList ++ (toString b.timestamp).toList) := by
    simpa using hlist
  obtain ⟨hid, hhash⟩ := Lib.last_field (newline_notMem_hexChars _) (newline_notMem_hexChars _)
    (List.append_cancel_right hbody)
  exact ⟨String.toList_inj.1 hid, hexChars_inj hhash⟩

end AtlasCex.Mpc
