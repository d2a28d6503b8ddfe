import JeryuForge.Library.JsonTree
import JeryuForge.Text

/-!
# Gateway capabilities

A capability is signed over its JSON without the signature, with sorted keys and without
blanks.  The text determines the value it was written from, so a signature that verifies
binds every other field.
-/

namespace JeryuForge.Gateway

open List

inductive RelayError where
  | capabilityUnverified
  | providerUnknown
  | connectionOwnerMismatch
  | providerNotConnected
  | connectionGenerationStale
  | providerModeDisabled
  | providerModeUnqualified
  | ramTokenNotPermitted
  | guestAuthorizationRejected
  | capabilityExpired
  | capabilityAudienceMismatch
  | upstreamHostDenied
  | connectionBusy
  | refreshPersistFailed
  | leaseBindingMismatch
  | relayIdleTimeout
  | relayStreamInvalid
deriving DecidableEq, Repr

inductive Mode where
  | gatewayHelper
  | qualifiedRamToken
deriving DecidableEq, Repr

inductive OwnerKind where
  | user
  | serviceAccount
deriving DecidableEq, Repr

structure Capability where
  capabilityId : String
  connectionId : String
  connectionGeneration : UInt64
  provider : String
  mode : Mode
  ownerKind : OwnerKind
  ownerId : String
  sessionId : String
  sessionGeneration : UInt64
  leaseId : String
  leaseEpoch : UInt64
  audience : String
  issuedAtUnixMillis : UInt64
  expiresAtUnixMillis : UInt64
  signature : String
deriving DecidableEq

def gatewayAudience : String :=
  "jeryu.gateway"

def maxLifetimeMillis : Nat :=
  60000

/-! ## The bytes that are signed -/

open Json in
mutual

/-- `canonical`: sorted keys and no blanks; a float is refused. -/
def canonical : Value → Option (List Char)
  | .null => some "null".toList
  | .bool value => some (if value then "true".toList else "false".toList)
  | .string text => some (Quoted.quote text)
  | .int value => some (Compact.renderInt value)
  | .float _ => none
  | .array items => (canonicalItems items).map Tree.arrayText
  | .object fields =>
    (canonicalFields fields).map fun texts => Tree.objectText (Value.inOrder texts)

def canonicalItems : List Value → Option (List (List Char))
  | [] => some []
  | item :: items => do
      let first ← canonical item
      let rest ← canonicalItems items
      return first :: rest

def canonicalFields : Fields → Option (List (String × List Char))
  | [] => some []
  | (key, value) :: fields => do
      let first ← canonical value
      let rest ← canonicalFields fields
      return (key, first) :: rest

end

def Mode.text : Mode → String
  | .gatewayHelper => "gateway_helper"
  | .qualifiedRamToken => "qualified_ram_token"

def OwnerKind.text : OwnerKind → String
  | .user => "user"
  | .serviceAccount => "service_account"

namespace Capability

variable (capability : Capability)

def unsignedFields : Json.Fields :=
  let text (value : String) : Json.Value := .string value.toList
  let number (value : UInt64) : Json.Value := .int value.toNat
  [("capability_id", text capability.capabilityId),
    ("connection_id", text capability.connectionId),
    ("connection_generation", number capability.connectionGeneration),
    ("provider", text capability.provider),
    ("mode", text capability.mode.text),
    ("owner_kind", text capability.ownerKind.text),
    ("owner_id", text capability.ownerId),
    ("session_id", text capability.sessionId),
    ("session_generation", number capability.sessionGeneration),
    ("lease_id", text capability.leaseId),
    ("lease_epoch", number capability.leaseEpoch),
    ("audience", text capability.audience),
    ("issued_at_unix_millis", number capability.issuedAtUnixMillis),
    ("expires_at_unix_millis", number capability.expiresAtUnixMillis)]

end Capability

def bytesOf (text : List Char) : List UInt8 :=
  (String.ofList text).toUTF8.data.toList

def domain : List UInt8 :=
  bytesOf ("jeryu.gateway.capability.v1".toList ++ [Char.ofNat 0])

def signingBytes (capability : Capability) : Option (List UInt8) :=
  (canonical (.object capability.unsignedFields)).map fun text => domain ++ bytesOf text

def hexSignatureByte (high low : Char) : Option UInt8 := do
  let high ← Quoted.hexValue high
  let low ← Quoted.hexValue low
  return UInt8.ofNat (high * 16 + low)

def hexPairs : List Char → Option (List UInt8)
  | [] => some []
  | high :: low :: rest => do
      let first ← hexSignatureByte high low
      let rest ← hexPairs rest
      return first :: rest
  | [_] => none

def decodeHexSignature (hex : String) : Option (List UInt8) :=
  if hex.toList.length ≠ 128 ∨
      !hex.toList.all fun char => ('0' ≤ char && char ≤ '9') || ('a' ≤ char && char ≤ 'f') then
    none
  else
    hexPairs hex.toList

abbrev Verifier := List UInt8 → List UInt8 → List UInt8 → Bool

def signedBy (verify : Verifier) (capability : Capability) (key : List UInt8) : Bool :=
  match decodeHexSignature capability.signature, signingBytes capability with
  | some signature, some message => verify key message signature
  | _, _ => false

def verifyValidity (capability : Capability) (nowUnixMillis leaseExpiresAtUnixMillis : UInt64) :
    Except RelayError Unit :=
  let issued := capability.issuedAtUnixMillis
  let expires := capability.expiresAtUnixMillis
  if ¬(issued < expires ∧ expires.toNat - issued.toNat ≤ maxLifetimeMillis) ∨
      nowUnixMillis < issued ∨ expires ≤ nowUnixMillis ∨ leaseExpiresAtUnixMillis < expires then
    .error .capabilityExpired
  else if capability.audience ≠ gatewayAudience then .error .capabilityAudienceMismatch
  else .ok ()

def ownerMatchesKind (capability : Capability) : Bool :=
  match capability.ownerKind with
  | .user => Text.startsWith capability.ownerId "user/"
  | .serviceAccount => Text.startsWith capability.ownerId "service/"

open Json

theorem canonicalItems_eq {items : List Value} {write : Value → List Char}
    (hitems : ∀ item ∈ items, canonical item = if item.floatFree then some (write item) else none) :
    canonicalItems items =
      if (Value.array items).floatFree then some (items.map write) else none := by
  induction items with
  | nil => rfl
  | cons item items ih =>
    have hitem := hitems item mem_cons_self
    have hrest := ih (forall_mem_cons.mp hitems).2
    rw [canonicalItems, hitem, hrest]
    simp only [Value.floatFree, Value.floatFreeItems]
    by_cases hfree : item.floatFree = true <;>
      by_cases hfreeRest : Value.floatFreeItems items = true <;> simp [hfree, hfreeRest]

theorem canonicalFields_eq {fields : Fields} (write : Value → List Char)
    (hfields : ∀ field ∈ fields,
      canonical field.2 = if field.2.floatFree then some (write field.2) else none) :
    canonicalFields fields =
      if (Value.object fields).floatFree then
        some (fields.map fun field => (field.1, write field.2))
      else none := by
  induction fields with
  | nil => rfl
  | cons field fields ih =>
    have hfield := hfields field mem_cons_self
    have hrest := ih (forall_mem_cons.mp hfields).2
    rw [canonicalFields, hfield, hrest]
    simp only [Value.floatFree, Value.floatFreeFields]
    by_cases hfree : field.2.floatFree = true <;>
      by_cases hfreeRest : Value.floatFreeFields fields = true <;> simp [hfree, hfreeRest]

theorem canonical_eq (value : Value) :
    canonical value = if value.floatFree then some (Tree.text value.sorted) else none := by
  induction value using Value.induct with
  | null | bool | int | float | string => rfl
  | array items ih =>
    rw [canonical, canonicalItems_eq ih, Value.sorted_array, Tree.text, Tree.textItems_eq, map_map]
    split <;> rfl
  | object fields ih =>
    have hsorted : Tree.text (Value.object fields).sorted =
        Tree.objectText (Value.inOrder
          (fields.map fun field => (field.1, Tree.text field.2.sorted))) := by
      rw [Value.sorted_object, Tree.text, Tree.textFields_eq, ← Value.inOrder_map, map_map]
      rfl
    have hfields := canonicalFields_eq (fun value => Tree.text value.sorted) ih
    rw [canonical, hfields, hsorted]
    split <;> rfl

theorem read_canonical {value : Value} {text : List Char} (htext : canonical value = some text) :
    Tree.read text = some value.sorted := by
  rw [canonical_eq] at htext
  split at htext
  · cases htext
    exact Tree.read_text (by rwa [Value.floatFree_sorted])
  · cases htext

theorem bytesOf_injective : Function.Injective bytesOf := by
  intro first second hsame
  have hbytes : (String.ofList first).toByteArray = (String.ofList second).toByteArray := by
    apply ByteArray.ext
    exact Array.toList_inj.mp hsame
  exact String.ofList_injective (String.toByteArray_inj.mp hbytes)

theorem Mode.text_injective : Function.Injective Mode.text := by
  intro first second hsame
  cases first <;> cases second <;> first | rfl | exact absurd hsame (by decide)

theorem OwnerKind.text_injective : Function.Injective OwnerKind.text := by
  intro first second hsame
  cases first <;> cases second <;> first | rfl | exact absurd hsame (by decide)

theorem eq_of_unsignedFields_perm {first second : Capability}
    (hperm : first.unsignedFields.Perm second.unsignedFields) :
    first = { second with signature := first.signature } := by
  have hkeys : (second.unsignedFields.map Prod.fst).Nodup := by
    simp [Capability.unsignedFields]
  have hsame := get?_of_perm hperm hkeys
  have htext : ∀ {left right : String}, some (Value.string left.toList) =
      some (Value.string right.toList) → left = right := by
    intro left right h
    exact String.toList_inj.mp (Value.string.inj (Option.some.inj h))
  have hnumber : ∀ {left right : UInt64}, some (Value.int left.toNat) =
      some (Value.int right.toNat) → left = right := by
    intro left right h
    exact UInt64.toNat_inj.mp (Int.ofNat.inj (Value.int.inj (Option.some.inj h)))
  have hmode := Mode.text_injective (htext (hsame "mode"))
  have hkind := OwnerKind.text_injective (htext (hsame "owner_kind"))
  cases first
  cases second
  rw [Capability.mk.injEq]
  exact ⟨htext (hsame "capability_id"), htext (hsame "connection_id"),
    hnumber (hsame "connection_generation"), htext (hsame "provider"), hmode, hkind,
    htext (hsame "owner_id"), htext (hsame "session_id"), hnumber (hsame "session_generation"),
    htext (hsame "lease_id"), hnumber (hsame "lease_epoch"), htext (hsame "audience"),
    hnumber (hsame "issued_at_unix_millis"), hnumber (hsame "expires_at_unix_millis"), rfl⟩

theorem signingBytes_inj {first second : Capability}
    (hsame : signingBytes first = signingBytes second) :
    first = { second with signature := first.signature } := by
  have hfree : ∀ capability : Capability,
      (Value.object capability.unsignedFields).floatFree = true := fun _ => rfl
  unfold signingBytes at hsame
  rw [canonical_eq, canonical_eq, hfree, hfree] at hsame
  have htext := bytesOf_injective (append_cancel_left (Option.some.inj hsame))
  have hvalue : (Value.object first.unsignedFields).sorted =
      (Value.object second.unsignedFields).sorted := by
    apply Option.some.inj
    rw [← Tree.read_text (by rw [Value.floatFree_sorted, hfree]), htext,
      Tree.read_text (by rw [Value.floatFree_sorted, hfree])]
  have hfields := Value.object.inj hvalue
  apply eq_of_unsignedFields_perm
  exact (Value.inOrder_perm _).symm.trans ((List.Perm.of_eq hfields).trans (Value.inOrder_perm _))

/-- The bytes that are signed determine every field but the signature, and the canonical text
of any value without floats determines the value up to the order of keys: it reads back as that
value.  A key that verifies signatures only over the bytes of one capability therefore verifies
no capability with other fields. -/
theorem signingBytes_binds :
    (∀ first second : Capability, signingBytes first = signingBytes second →
      first = { second with signature := first.signature }) ∧
    (∀ first second : Value, first.floatFree = true → second.floatFree = true →
      (canonical first = canonical second ↔ first.sorted = second.sorted)) ∧
    (∀ value : Value, value.floatFree = true →
      ∃ text, canonical value = some text ∧ Tree.read text = some value.sorted) ∧
    ∀ (verify : Verifier) (key : List UInt8) (signed presented : Capability),
      (∀ message signature, verify key message signature = true →
        signingBytes signed = some message) →
      signedBy verify presented key = true →
      presented = { signed with signature := presented.signature } := by
  refine ⟨fun _ _ => signingBytes_inj, ?_, ?_, ?_⟩
  · intro first second hfirst hsecond
    rw [canonical_eq, canonical_eq, if_pos hfirst, if_pos hsecond]
    constructor
    · intro hsame
      apply Option.some.inj
      rw [← Tree.read_text (by rwa [Value.floatFree_sorted]), Option.some.inj hsame,
        Tree.read_text (by rwa [Value.floatFree_sorted])]
    · intro hsame
      rw [hsame]
  · intro value hfree
    have htext : canonical value = some (Tree.text value.sorted) := by
      rw [canonical_eq, if_pos hfree]
    exact ⟨_, htext, read_canonical htext⟩
  · intro verify key signed presented honly hsigned
    unfold signedBy at hsigned
    split at hsigned
    next signature message _ hmessage =>
      apply signingBytes_inj
      rw [hmessage, honly message signature hsigned]
    · cases hsigned

def aliceCapability : Capability where
  capabilityId := "cap-1"
  connectionId := "pc_1"
  connectionGeneration := 1
  provider := "claude"
  mode := .gatewayHelper
  ownerKind := .user
  ownerId := "user/alice"
  sessionId := "sess-1"
  sessionGeneration := 1
  leaseId := "lease-1"
  leaseEpoch := 1
  audience := "jeryu.gateway"
  issuedAtUnixMillis := 1000
  expiresAtUnixMillis := 31000
  signature := String.ofList (List.replicate 128 '0')

theorem signingBytes_binds_alice :
    signingBytes aliceCapability ≠
        signingBytes { aliceCapability with connectionGeneration := 2 } ∧
      signedBy (fun _ message _ => signingBytes aliceCapability = some message) aliceCapability []
        = true ∧
      canonical (.object [("b", .array [.int 1, .int (-12)]), ("a", .string ['x'])]) =
        canonical (.object [("a", .string ['x']), ("b", .array [.int 1, .int (-12)])]) := by
  refine ⟨fun hsame => ?_, by decide +kernel, ?_⟩
  · have hfields := signingBytes_binds.1 _ _ hsame
    exact absurd (congrArg Capability.connectionGeneration hfields) (by decide)
  · rw [signingBytes_binds.2.1 _ _ rfl rfl]
    rfl

end JeryuForge.Gateway
