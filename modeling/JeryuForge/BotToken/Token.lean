import JeryuForge.BotToken.Origins
import JeryuForge.Library.Base64
import JeryuForge.Library.JsonTree
import JeryuForge.Library.Saturating

/-!
# Bot access tokens

A token is issued for a session and an audience and signed with the forge's key; a
request is verified against the origin of its `Host` header.
-/

namespace JeryuForge.BotToken

open List Option Quoted Base64Url

def accessTtlSecs : Int64 := 900
def clockSkewSecs : Int64 := 60

structure Uuid where
  bytes : List UInt8
  length : bytes.length = 16
deriving DecidableEq

def hexByte (byte : UInt8) : Chars :=
  [hexDigit (byte.toNat / 16), hexDigit (byte.toNat % 16)]

def Uuid.text (id : Uuid) : Chars :=
  ['-'].intercalate
    ([id.bytes.take 4, (id.bytes.drop 4).take 2, (id.bytes.drop 6).take 2,
      (id.bytes.drop 8).take 2, id.bytes.drop 10].map fun group => group.flatMap hexByte)

structure Timestamp where
  secs : Int64
  least : -8334601228800 ≤ secs.toInt
  most : secs.toInt ≤ 8210266876799

/-- What the tokens rest on: a JSON writer and reader, a reader of ids that reads what is
printed, a keyed hash and the signing key. -/
structure Services where
  json : Json.Text
  parseUuid : Chars → Option Uuid
  parseUuid_text : ∀ id, parseUuid id.text = some id
  hmac : List UInt8 → List UInt8 → List UInt8
  signingKey : Except String (List UInt8)

structure BotSession where
  botId : Uuid
  kind : Chars
  generation : UInt64
  keyId : Chars

structure AccessClaims where
  botId : Uuid
  generation : UInt64
  keyId : Chars
deriving DecidableEq

def asBytes (text : Chars) : List UInt8 :=
  text.flatMap String.utf8EncodeChar

def tokenHeader : Json.Fields :=
  [("alg", .string "HS256".toList), ("typ", .string "JWT".toList)]

def payload (session : BotSession) (audience : Chars) (now : Int64) : Json.Fields :=
  [("iss", .string audience),
    ("aud", .string audience),
    ("sub", .string session.botId.text),
    ("token_use", .string "bot_access".toList),
    ("generation", .int session.generation.toNat),
    ("key_id", .string session.keyId),
    ("iat", .int now.toInt),
    ("nbf", .int now.toInt),
    ("exp", .int (now + accessTtlSecs).toInt),
    ("kind", .string session.kind)]

def signingInput (services : Services) (fields : Json.Fields) : Chars :=
  encode (services.json.render tokenHeader) ++
    '.' :: encode (services.json.render fields)

def sign (services : Services) (key : List UInt8) (fields : Json.Fields) : Chars :=
  let input := signingInput services fields
  input ++ '.' :: encode (services.hmac key (asBytes input))

def issueAccessToken (services : Services) (session : BotSession) (audience : Chars)
    (now : Timestamp) : Except String Chars :=
  match canonicalAudience audience with
  | none => .error "audience is not an acceptable forge origin"
  | some audience => do
      let key ← services.signingKey
      return sign services key (payload session audience now.secs)

def readClaims (services : Services) (payload : Json.Value) (expected : Chars) (now : Int64) :
    Option AccessClaims := do
  guard ((payload.get? "token_use").bind Json.Value.asStr = some "bot_access".toList)
  let aud ← ((payload.get? "aud").bind Json.Value.asStr).bind canonicalAudience
  let iss ← ((payload.get? "iss").bind Json.Value.asStr).bind canonicalAudience
  guard (aud = expected ∧ iss = aud)
  let iat ← (payload.get? "iat").bind Json.Value.asI64
  let nbf ← (payload.get? "nbf").bind Json.Value.asI64
  let exp ← (payload.get? "exp").bind Json.Value.asI64
  let ends ← iat.checkedAdd accessTtlSecs
  guard (exp = ends ∧ nbf = iat)
  guard (iat ≤ now.saturatingAdd clockSkewSecs ∧ nbf ≤ now.saturatingAdd clockSkewSecs ∧
    now ≤ exp.saturatingAdd clockSkewSecs)
  let botId ← ((payload.get? "sub").bind Json.Value.asStr).bind services.parseUuid
  let generation ← (payload.get? "generation").bind Json.Value.asU64
  let keyId ← ((payload.get? "key_id").bind Json.Value.asStr).filter fun keyId => !keyId.isEmpty
  return { botId := botId, generation := generation, keyId := keyId }

def verifyAccessToken (services : Services) (token expected : Chars) (now : Int64) :
    Option AccessClaims := do
  let key ← services.signingKey.toOption
  match token.splitOnP (· = '.') with
  | [header64, payload64, signature64] =>
    let header ← (decode header64).bind services.json.parse
    guard ((header.get? "alg").bind Json.Value.asStr = some "HS256".toList)
    let signature ← decode signature64
    guard (signature = services.hmac key (asBytes (header64 ++ '.' :: payload64)))
    let payload ← (decode payload64).bind services.json.parse
    readClaims services payload expected now
  | _ => none

def verifyRequest (services : Services) (header : List UInt8) (token : Chars) (now : Int64) :
    Option AccessClaims := do
  let expected ← requestAudience header
  verifyAccessToken services token expected now

def Valid (issued : Timestamp) (now : Int64) : Prop :=
  issued.secs.toInt - clockSkewSecs.toInt ≤ now.toInt ∧
    now.toInt ≤ issued.secs.toInt + accessTtlSecs.toInt + clockSkewSecs.toInt

instance (issued : Timestamp) (now : Int64) : Decidable (Valid issued now) :=
  inferInstanceAs (Decidable (_ ∧ _))

def BotSession.claims (session : BotSession) : AccessClaims :=
  { botId := session.botId, generation := session.generation, keyId := session.keyId }

section Issued

variable {services : Services} {session : BotSession} {audience canonical expected : Chars}
  {issued : Timestamp} {now : Int64}

theorem flat_tokenHeader : Json.Flat tokenHeader := by
  refine ⟨by decide +kernel, ?_⟩
  simp [tokenHeader, Json.Value.Scalar]

theorem flat_payload (session : BotSession) (audience : Chars) (now : Int64) :
    Json.Flat (payload session audience now) := by
  have hnow := And.intro now.le_toInt now.toInt_lt
  have hend := And.intro (now + accessTtlSecs).le_toInt (now + accessTtlSecs).toInt_lt
  have hgeneration := session.generation.toNat_lt
  refine ⟨by simp [payload], ?_⟩
  simp only [payload, mem_cons, not_mem_nil, or_false, forall_eq_or_imp, forall_eq,
    Json.Value.Scalar, true_and, and_true]
  omega

theorem some_bind {α β : Type} (value : α) (next : α → Option β) :
    (some value >>= next) = next value := by
  simp

theorem asI64_toInt (value : Int64) : (Json.Value.int value.toInt).asI64 = some value := by
  rw [Json.Value.asI64, if_pos ⟨value.le_toInt, value.toInt_lt⟩, Int64.ofInt_toInt]

theorem asU64_toNat (value : UInt64) : (Json.Value.int value.toNat).asU64 = some value := by
  have hlt := value.toNat_lt
  rw [Json.Value.asU64, if_pos ⟨Int.natCast_nonneg _, by omega⟩, Int.toNat_natCast,
    UInt64.ofNat_toNat]

theorem valid_iff (issued : Timestamp) (now : Int64) :
    (issued.secs ≤ now.saturatingAdd clockSkewSecs ∧
        issued.secs ≤ now.saturatingAdd clockSkewSecs ∧
        now ≤ (issued.secs + accessTtlSecs).saturatingAdd clockSkewSecs) ↔
      Valid issued now := by
  have hskew : 0 ≤ clockSkewSecs.toInt := by decide
  have httl : accessTtlSecs.toInt = 900 := by decide
  have hleast := issued.least
  have hmost := issued.most
  have hends := (Int64.checkedAdd_eq_some issued.secs accessTtlSecs (by omega) (by omega)).2
  rw [Int64.le_saturatingAdd_iff hskew, Int64.le_saturatingAdd_iff hskew, hends]
  unfold Valid
  omega

theorem readClaims_payload {value : Json.Value} (hkeyId : session.keyId ≠ []) (hvalue : ∀ key,
      value.get? key = (Json.Value.object (payload session canonical issued.secs)).get? key) :
    readClaims services value expected now =
      if canonicalAudience canonical = some expected ∧ Valid issued now then
        some session.claims
      else
        none := by
  have httl : accessTtlSecs.toInt = 900 := by decide
  have hleast := issued.least
  have hmost := issued.most
  have hends := (Int64.checkedAdd_eq_some issued.secs accessTtlSecs (by omega) (by omega)).1
  have hget : ∀ key field, (key, field) ∈ payload session canonical issued.secs →
      value.get? key = some field := fun key field hmem =>
    (hvalue key).trans ((Json.get?_eq_some_iff (flat_payload _ _ _).nodup).mpr hmem)
  have huse : (value.get? "token_use").bind Json.Value.asStr = some "bot_access".toList := by
    rw [hget "token_use" (.string "bot_access".toList) (by simp [payload])]
    rfl
  have haud : (value.get? "aud").bind Json.Value.asStr = some canonical := by
    rw [hget "aud" (.string canonical) (by simp [payload])]
    rfl
  have hiss : (value.get? "iss").bind Json.Value.asStr = some canonical := by
    rw [hget "iss" (.string canonical) (by simp [payload])]
    rfl
  have hiat : (value.get? "iat").bind Json.Value.asI64 = some issued.secs := by
    rw [hget "iat" (.int issued.secs.toInt) (by simp [payload]), bind_some, asI64_toInt]
  have hnbf : (value.get? "nbf").bind Json.Value.asI64 = some issued.secs := by
    rw [hget "nbf" (.int issued.secs.toInt) (by simp [payload]), bind_some, asI64_toInt]
  have hexp : (value.get? "exp").bind Json.Value.asI64 =
      some (issued.secs + accessTtlSecs) := by
    rw [hget "exp" (.int (issued.secs + accessTtlSecs).toInt) (by simp [payload]),
      bind_some, asI64_toInt]
  have hsub : ((value.get? "sub").bind Json.Value.asStr).bind services.parseUuid =
      some session.botId := by
    rw [hget "sub" (.string session.botId.text) (by simp [payload])]
    exact services.parseUuid_text session.botId
  have hgeneration : (value.get? "generation").bind Json.Value.asU64 =
      some session.generation := by
    rw [hget "generation" (.int session.generation.toNat) (by simp [payload]),
      bind_some, asU64_toNat]
  have hkey : ((value.get? "key_id").bind Json.Value.asStr).filter
      (fun keyId => !keyId.isEmpty) = some session.keyId := by
    rw [hget "key_id" (.string session.keyId) (by simp [payload]), filter_eq_some_iff]
    exact ⟨rfl, by simp [hkeyId]⟩
  unfold readClaims
  rw [huse, haud, hiss, hiat, hnbf, hexp, hsub, hgeneration, hkey]
  simp only [some_bind, bind_some, hends, and_self, valid_iff]
  cases hagain : canonicalAudience canonical with
  | none => simp
  | some again =>
    by_cases hsame : again = expected
    · subst hsame
      by_cases hvalid : Valid issued now
      · simp [hvalid, BotSession.claims]
      · simp [hvalid]
    · simp [hsame]

theorem splitOnP_sign {first second third : Chars} (hfirst : '.' ∉ first)
    (hsecond : '.' ∉ second) (hthird : '.' ∉ third) :
    (first ++ '.' :: second ++ '.' :: third).splitOnP (· = '.') = [first, second, third] := by
  have hother : ∀ {part : Chars}, '.' ∉ part →
      ∀ char ∈ part, decide (char = '.') = false := by
    intro part hpart char hchar
    simpa using ne_of_mem_of_not_mem hchar hpart
  rw [append_assoc, cons_append, splitOnP_append_cons_of_forall_mem (hother hfirst) _ (by simp),
    splitOnP_append_cons_of_forall_mem (hother hsecond) _ (by simp),
    splitOnP_eq_singleton (hother hthird)]

theorem verifyAccessToken_issued (hkeyId : session.keyId ≠ []) {key : List UInt8}
    (hkey : services.signingKey = .ok key) :
    verifyAccessToken services (sign services key (payload session canonical issued.secs))
        expected now =
      if canonicalAudience canonical = some expected ∧ Valid issued now then
        some session.claims
      else
        none := by
  obtain ⟨header, hheader, halg⟩ := services.json.parse_render tokenHeader flat_tokenHeader
  obtain ⟨value, hvalue, hfields⟩ := services.json.parse_render
    (payload session canonical issued.secs) (flat_payload _ _ _)
  have hHS256 : (header.get? "alg").bind Json.Value.asStr = some "HS256".toList := by
    rw [halg, (Json.get?_eq_some_iff flat_tokenHeader.nodup).mpr
      (mem_cons_self : ("alg", _) ∈ tokenHeader)]
    rfl
  unfold verifyAccessToken sign signingInput
  rw [hkey, splitOnP_sign (dot_notMem_encode _) (dot_notMem_encode _) (dot_notMem_encode _)]
  simp only [Except.toOption, some_bind, decode_encode, bind_some, hheader, hHS256, hvalue]
  exact readClaims_payload hkeyId hfields

theorem issueAccessToken_eq_ok {token : Chars}
    (hissue : issueAccessToken services session audience issued = .ok token) :
    ∃ canonical key, canonicalAudience audience = some canonical ∧
      services.signingKey = .ok key ∧
      token = sign services key (payload session canonical issued.secs) := by
  unfold issueAccessToken at hissue
  split at hissue
  · cases hissue
  next canonical hcanonical =>
    cases hkey : services.signingKey with
    | error failure =>
      rw [hkey] at hissue
      cases hissue
    | ok key =>
      rw [hkey] at hissue
      exact ⟨canonical, key, hcanonical, rfl, (Except.ok.inj hissue).symm⟩

end Issued

/-- A token verifies for the requests to one host in its time, with the claims of its
session, and for no others. -/
structure RoundTrip (services : Services) (session : BotSession) (issued : Timestamp)
    (token host : Chars) : Prop where
  verifies : ∀ header now, HeaderSpells header host → Valid issued now →
    verifyRequest services header token now = some session.claims
  only : ∀ header now claims, verifyRequest services header token now = some claims →
    HeaderSpells header host ∧ Valid issued now ∧ claims = session.claims

section Trip

variable {services : Services} {session : BotSession} {issued : Timestamp}
  {token canonical host : Chars}

theorem verifyRequest_eq_some_iff
    (hverify : ∀ expected now, verifyAccessToken services token expected now =
      if canonicalAudience canonical = some expected ∧ Valid issued now then
        some session.claims
      else
        none) {header : List UInt8} {now : Int64} {claims : AccessClaims} :
    verifyRequest services header token now = some claims ↔
      ∃ expected, requestAudience header = some expected ∧
        canonicalAudience canonical = some expected ∧ Valid issued now ∧
        claims = session.claims := by
  unfold verifyRequest
  rw [bind_eq_bind, bind_eq_some_iff]
  refine exists_congr fun expected => and_congr_right fun _ => ?_
  rw [hverify]
  split
  next hholds =>
    simp [hholds, eq_comm]
  next hnot =>
    rw [not_and] at hnot
    constructor
    · intro hsome
      cases hsome
    · rintro ⟨hcanonical, hvalid, -⟩
      exact absurd hvalid (hnot hcanonical)

theorem SpellsHost.printable {text : Chars} (hspells : SpellsHost text host)
    (hprintable : Printable host) : Printable text := by
  intro char hchar
  rcases hspells.mem_text hchar with hmem | rfl | rfl | rfl | hdigit
  · exact hprintable char hmem
  · decide
  · decide
  · decide
  · have hcode : 48 ≤ char.toNat ∧ char.toNat ≤ 57 := by
      simpa [Char.isDigit, Char.le_def, UInt32.le_iff_toNat_le] using hdigit
    omega

theorem printable_of_shown (hprintable : Printable (shown host)) : Printable host := by
  unfold shown at hprintable
  split at hprintable
  next hsame =>
    rw [hsame]
    decide +kernel
  · exact hprintable

theorem close_notMem_of_not_readsBack {audience : Chars} (hnames : NamesHost audience host)
    (hback : ¬ReadsBack host) : ']' ∉ host := by
  obtain ⟨_, _, _, _, -, -, -, -, hspells⟩ := hnames
  cases hspells with
  | plain _ hcolon hhead _ => exact absurd (.inr ⟨hcolon, hhead⟩) hback
  | bracketed _ hclose _ => exact hclose

/-- An issued token makes the round trip if and only if its host reads back from the way
it is shown, or no request can name it. -/
theorem issued_roundTrip_iff (services : Services) (session : BotSession)
    (hkeyId : session.keyId ≠ []) (audience : Chars) (issued : Timestamp) (token : Chars)
    (hissue : issueAccessToken services session audience issued = .ok token) :
    ∃ host, (∀ other, NamesHost audience other ↔ other = host) ∧
      (RoundTrip services session issued token host ↔ ReadsBack host ∨ ¬Printable host) := by
  obtain ⟨canonical, key, hcanonical, hkey, rfl⟩ := issueAccessToken_eq_ok hissue
  obtain ⟨host, hnames, hne, hclean, hagain⟩ := canonicalAudience_eq_some hcanonical
  have hiff := fun header now claims => @verifyRequest_eq_some_iff services session issued
    (sign services key (payload session canonical issued.secs)) canonical
    (fun _ _ => verifyAccessToken_issued hkeyId hkey) header now claims
  refine ⟨host, hnames, ⟨fun htrip => ?_, fun hcondition => ?_⟩⟩
  · by_contra hneither
    rw [not_or, not_not] at hneither
    obtain ⟨hback, hprintable⟩ := hneither
    have hheader := bracketedHeader_spells hne
      (close_notMem_of_not_readsBack ((hnames host).mpr rfl) hback) hprintable
    have hvalid : Valid issued issued.secs := by
      have hskew : clockSkewSecs.toInt = 60 := by decide
      have httl : accessTtlSecs.toInt = 900 := by decide
      unfold Valid
      omega
    obtain ⟨expected, hrequest, hcarried, -, -⟩ :=
      (hiff _ _ _).mp (htrip.verifies _ _ hheader hvalid)
    obtain rfl : origin host = expected :=
      Option.some.inj ((requestAudience_of_spells hheader hclean).symm.trans hrequest)
    rw [hagain] at hcarried
    obtain ⟨⟨found, port⟩, hsplit, horigin⟩ := map_eq_some_iff.mp hcarried
    obtain rfl := origin_injective horigin
    exact hback ((spellsHost_shown_iff hne).mp (splitHostPort_iff.mp ⟨port, hsplit⟩))
  · refine ⟨fun header now hheader hvalid => ?_, fun header now claims hverified => ?_⟩
    · rcases hcondition with hback | hprintable
      · have hcarried := ((spellsHost_shown_iff hne).mpr hback).map_fst origin
        exact (hiff _ _ _).mpr ⟨origin host, requestAudience_of_spells hheader hclean,
          hagain.trans hcarried, hvalid, rfl⟩
      · exact absurd (hheader.printable hclean) hprintable
    · obtain ⟨expected, hrequest, hcarried, hvalid, hclaims⟩ := (hiff _ _ _).mp hverified
      obtain ⟨name, hheader, rfl⟩ := requestAudience_eq_some hrequest
      rw [hagain] at hcarried
      obtain ⟨⟨found, port⟩, hsplit, horigin⟩ := map_eq_some_iff.mp hcarried
      obtain rfl := origin_injective horigin
      have hfound : SpellsHost (shown host) found := splitHostPort_iff.mp ⟨port, hsplit⟩
      rcases hcondition with hback | hprintable
      · obtain rfl := hfound.unique ((spellsHost_shown_iff hne).mpr hback)
        exact ⟨hheader, hvalid, hclaims⟩
      · have hfoundClean : Clean found := fun char hchar => hclean.shown char (hfound.mem hchar)
        have hshown := hfound.printable (hheader.printable hfoundClean)
        exact absurd (printable_of_shown hshown) hprintable

end Trip

def decodeHex : Chars → Option (List UInt8)
  | [] => some []
  | [_] => none
  | high :: low :: rest => do
      let high ← hexValue high
      let low ← hexValue low
      let rest ← decodeHex rest
      return (high * 16 + low).toUInt8 :: rest

def parseHyphenated (text : Chars) : Option Uuid := do
  let bytes ← decodeHex (text.filter fun char => char ≠ '-')
  if hlength : bytes.length = 16 then some { bytes := bytes, length := hlength } else none

section Samples

theorem decodeHex_hexByte (bytes : List UInt8) :
    decodeHex (bytes.flatMap hexByte) = some bytes := by
  induction bytes with
  | nil => rfl
  | cons byte rest ih =>
    have hlt := byte.toNat_lt
    have hbyte : byte.toNat / 16 * 16 + byte.toNat % 16 = byte.toNat := by omega
    have hpair : (byte :: rest).flatMap hexByte =
        hexDigit (byte.toNat / 16) :: hexDigit (byte.toNat % 16) ::
          rest.flatMap hexByte := rfl
    rw [hpair, decodeHex, hexValue_hexDigit _ (by omega), hexValue_hexDigit _ (by omega), ih]
    simp only [some_bind, toUInt8_eq _ hbyte]
    rfl

theorem hyphen_ne_hexDigit : ∀ value < 16, hexDigit value ≠ '-' := by
  decide

theorem filter_flatMap_hexByte (bytes : List UInt8) :
    ((bytes.flatMap hexByte).filter fun char => char ≠ '-') = bytes.flatMap hexByte := by
  refine filter_eq_self.mpr fun char hchar => ?_
  obtain ⟨byte, -, hdigit⟩ := mem_flatMap.mp hchar
  have hlt := byte.toNat_lt
  simp only [hexByte, mem_cons, not_mem_nil, or_false] at hdigit
  rcases hdigit with rfl | rfl
  · simpa using hyphen_ne_hexDigit _ (by omega)
  · simpa using hyphen_ne_hexDigit _ (by omega)

theorem parseHyphenated_text (id : Uuid) : parseHyphenated id.text = some id := by
  have hparts : id.bytes = id.bytes.take 4 ++ ((id.bytes.drop 4).take 2 ++
      ((id.bytes.drop 6).take 2 ++ ((id.bytes.drop 8).take 2 ++ id.bytes.drop 10))) := by
    have hnext : ∀ count, (id.bytes.drop count).take 2 ++ id.bytes.drop (count + 2) =
        id.bytes.drop count := by
      intro count
      rw [← drop_drop, take_append_drop]
    rw [hnext 8, hnext 6, hnext 4, take_append_drop]
  have hdigits : (id.text.filter fun char => char ≠ '-') = id.bytes.flatMap hexByte := by
    conv_rhs => rw [hparts]
    simp only [Uuid.text, intercalate, map_cons, map_nil, intersperse,
      flatten_cons, flatten_nil, append_nil, filter_append,
      filter_flatMap_hexByte, flatMap_append]
    simp
  unfold parseHyphenated
  rw [hdigits, decodeHex_hexByte]
  simp [id.length]

def sampleServices (digest : List UInt8) : Services where
  json := Json.compact
  parseUuid := parseHyphenated
  parseUuid_text := parseHyphenated_text
  hmac _ _ := digest
  signingKey := .ok "jeryu-bot-test-key-32-bytes!!!!!".toUTF8.toList

def sampleSession : BotSession where
  botId := { bytes := [0, 0, 0, 0, 0, 0, 64, 0, 128, 0, 0, 0, 0, 0, 0, 7], length := rfl }
  kind := "codex".toList
  generation := 1
  keyId := "k1".toList

def sampleTime : Timestamp where
  secs := 1700000000
  least := by decide
  most := by decide

def forgeDigest : List UInt8 :=
  [69, 253, 7, 124, 155, 67, 64, 189, 207, 57, 90, 147, 67, 207, 156, 163, 113, 31, 217, 226,
    167, 183, 188, 249, 246, 64, 202, 128, 234, 25, 254, 194]

def addressDigest : List UInt8 :=
  [238, 248, 135, 228, 182, 146, 230, 167, 72, 19, 208, 3, 154, 14, 255, 93, 68, 105, 149,
    122, 0, 230, 94, 102, 237, 64, 15, 15, 142, 5, 9, 57]

theorem issueAccessToken_sample {audience canonical : Chars} (digest : List UInt8)
    (hcanonical : canonicalAudience audience = some canonical) :
    issueAccessToken (sampleServices digest) sampleSession audience sampleTime =
      .ok (sign (sampleServices digest) "jeryu-bot-test-key-32-bytes!!!!!".toUTF8.toList
        (payload sampleSession canonical sampleTime.secs)) := by
  unfold issueAccessToken
  rw [hcanonical]
  rfl

/-- An address with colons is shown without its brackets, and its own forge does not
accept that audience again. -/
theorem addressToken_refused :
    ∃ token,
      issueAccessToken (sampleServices addressDigest) sampleSession
          "https://[2001:db8::1]".toList sampleTime = .ok token ∧
        HeaderSpells (bracketedHeader "2001:db8::1".toList) "2001:db8::1".toList ∧
        Valid sampleTime sampleTime.secs ∧
        verifyRequest (sampleServices addressDigest)
          (bracketedHeader "2001:db8::1".toList) token sampleTime.secs = none := by
  have hcanonical : canonicalAudience "https://[2001:db8::1]".toList =
      some "https://2001:db8::1".toList := by decide +kernel
  refine ⟨_, issueAccessToken_sample addressDigest hcanonical,
    bracketedHeader_spells (by decide +kernel) (by decide +kernel) (by decide +kernel),
    by decide +kernel, ?_⟩
  refine eq_none_iff_forall_ne_some.mpr fun claims hverified => ?_
  obtain ⟨expected, -, hcarried, -⟩ := (verifyRequest_eq_some_iff fun _ _ =>
    verifyAccessToken_issued (by decide +kernel) rfl).mp hverified
  cases hcarried

theorem issued_roundTrip_forge :
    ∃ token host,
      issueAccessToken (sampleServices forgeDigest) sampleSession
          "https://forge.example".toList sampleTime = .ok token ∧
        NamesHost "https://forge.example".toList host ∧
        RoundTrip (sampleServices forgeDigest) sampleSession sampleTime token host := by
  have hcanonical : canonicalAudience "https://forge.example".toList =
      some "https://forge.example".toList := by decide +kernel
  have hissue := issueAccessToken_sample forgeDigest hcanonical
  obtain ⟨host, hnames, htrip⟩ := issued_roundTrip_iff (sampleServices forgeDigest)
    sampleSession (by decide +kernel) "https://forge.example".toList sampleTime _ hissue
  have hhost : NamesHost "https://forge.example".toList "forge.example".toList := by
    refine ⟨[], true, "forge.example".toList, [], by decide +kernel, by simp,
      by decide +kernel, by simp, splitHostPort_iff.mp ⟨none, by decide +kernel⟩⟩
  obtain rfl := (hnames _).mp hhost
  exact ⟨_, _, hissue, hhost, htrip.mpr (.inl (by decide +kernel))⟩

end Samples

end JeryuForge.BotToken
