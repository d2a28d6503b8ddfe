import JeryuForge.BotToken.Token

/-!
# Conditional reads

The middleware `etag` reads a JSON answer to its end in order to tag it.  One that is too long is
answered with an error instead of being passed on.
-/

namespace JeryuForge.Conditional

open List BotToken

inductive Method where
  | get
  | head
  | other
deriving DecidableEq

structure Request where
  method : Method
  path : String
  ifNoneMatch : Option (List UInt8)

/-- The bytes of a body, and whether the stream breaks off behind them. -/
structure Body where
  bytes : List UInt8
  breaksOff : Bool
deriving DecidableEq

/-- The headers that `etag` writes are kept as text. -/
structure Response where
  status : Nat
  contentType : Option (List UInt8)
  etag : Option Chars
  cacheControl : Option Chars
  contentLength : Option Chars
  body : Body

def maxTaggedBodyBytes : Nat := 64 * 1024 * 1024

/-- As `axum::body::to_bytes` documents it: an error if the body fails or exceeds the limit, and
otherwise all of its bytes. -/
def toBytes (body : Body) (limit : Nat) : Option (List UInt8) :=
  if body.breaksOff || limit < body.bytes.length then none else some body.bytes

def isJson (contentType : Option (List UInt8)) : Bool :=
  (contentType.bind toStr).any fun value =>
    let media := trim ((value.splitOn ';').headD [])
    media.map Char.toLower = "application/json".toList || "+json".toList.isSuffixOf media

section Tag

-- The first sixteen bytes of the SHA-256 digest.
variable (digest : List UInt8 → List UInt8)

def entityTag (body : List UInt8) : Chars :=
  '"' :: ((digest body).flatMap hexByte ++ ['"'])

def matchesTag (ifNoneMatch : List UInt8) (tag : Chars) : Bool :=
  (toStr ifNoneMatch).any fun listed => (listed.splitOn ',').any fun piece =>
    let candidate := trim piece
    candidate = ['*'] || (candidate.dropPrefix? ['W', '/']).getD candidate = tag

def unreadable : Response :=
  { status := 500, contentType := some (asBytes "text/plain; charset=utf-8".toList), etag := none
    cacheControl := none, contentLength := none
    body := ⟨asBytes "response body could not be read".toList, false⟩ }

/-- What `etag` answers once it has read the body. -/
def tagged (request : Request) (inner : Response) (bytes : List UInt8) : Response :=
  let tag := entityTag digest bytes
  let response := { inner with
    etag := some tag, cacheControl := some "private, no-cache".toList, body := ⟨bytes, false⟩ }
  if request.ifNoneMatch.any fun value => matchesTag value tag then
    { response with status := 304, contentLength := none, body := ⟨[], false⟩ }
  else response

/-- `inner` is what the rest of the server answers. -/
def etag (request : Request) (inner : Response) : Response :=
  let applies := (request.method = .get || request.method = .head) &&
    Text.startsWith request.path "/api/v1"
  if !applies then inner
  else if inner.status ≠ 200 || !isJson inner.contentType || inner.etag.isSome then inner
  else
    match toBytes inner.body maxTaggedBodyBytes with
    | none => unreadable
    | some bytes => tagged digest request inner bytes

def IsTag (candidate : Chars) (body : List UInt8) : Prop :=
  candidate = entityTag digest body ∨ candidate = 'W' :: '/' :: entityTag digest body

/-- The members of the list in the header; none if the header is not text. -/
def listedTags (request : Request) : List Chars :=
  (request.ifNoneMatch.bind toStr).elim [] fun listed => (listed.splitOn ',').map trim

def Names (request : Request) (body : List UInt8) : Prop :=
  ['*'] ∈ listedTags request ∨ ∃ candidate ∈ listedTags request, IsTag digest candidate body

/-- An answer that `etag` tags if it can be read. -/
def Taggable (inner : Response) : Prop :=
  inner.status = 200 ∧ isJson inner.contentType = true ∧ inner.etag = none

structure Transparent (request : Request) (inner answer : Response) : Prop where
  passed : ¬(Taggable inner ∧ inner.body.bytes.length ≤ maxTaggedBodyBytes ∧
    Names digest request inner.body.bytes) → answer.status = inner.status ∧ answer.body = inner.body
  notModified : Taggable inner → inner.body.bytes.length ≤ maxTaggedBodyBytes →
    Names digest request inner.body.bytes → answer.status = 304 ∧ answer.body = ⟨[], false⟩
  current : answer.status = 304 → inner.status ≠ 304 → ['*'] ∉ listedTags request →
    ∃ candidate ∈ listedTags request, ∀ body, IsTag digest candidate body ↔ body = inner.body.bytes
  large : maxTaggedBodyBytes < inner.body.bytes.length → answer.etag = inner.etag

variable {digest} {request : Request} {inner : Response}

theorem entityTag_injective (hdigest : Function.Injective digest) :
    Function.Injective (entityTag digest) := by
  intro first second hsame
  have hhex := (append_inj' (cons.inj hsame).2 rfl).1
  have hdecoded := congrArg decodeHex hhex
  rw [decodeHex_hexByte, decodeHex_hexByte] at hdecoded
  exact hdigest (Option.some.inj hdecoded)

theorem isTag_iff_eq (hdigest : Function.Injective digest) {candidate : Chars}
    {body : List UInt8} (htag : IsTag digest candidate body) (other : List UInt8) :
    IsTag digest candidate other ↔ other = body := by
  constructor
  · intro hother
    rcases htag with rfl | rfl <;> rcases hother with hsame | hsame
    · exact (entityTag_injective hdigest hsame).symm
    · exact absurd (cons.inj hsame).1 (by decide)
    · exact absurd (cons.inj hsame).1 (by decide)
    · exact (entityTag_injective hdigest (cons.inj (cons.inj hsame).2).2).symm
  · rintro rfl
    exact htag

theorem stripped_eq_iff (candidate : Chars) (body : List UInt8) :
    (candidate.dropPrefix? ['W', '/']).getD candidate = entityTag digest body ↔
      IsTag digest candidate body := by
  unfold IsTag
  cases hstripped : candidate.dropPrefix? ['W', '/'] with
  | none =>
    refine ⟨.inl, fun hor => hor.resolve_right fun hweak => ?_⟩
    simp [hweak, dropPrefix?] at hstripped
  | some rest =>
    obtain ⟨start, rfl, hstart⟩ := dropPrefix?_eq_some_iff.mp hstripped
    obtain rfl := eq_of_beq hstart
    simp [entityTag]

theorem any_matchesTag_iff (body : List UInt8) :
    (request.ifNoneMatch.any fun value => matchesTag value (entityTag digest body)) = true ↔
      Names digest request body := by
  unfold Names listedTags matchesTag
  cases request.ifNoneMatch with
  | none => simp
  | some value =>
    cases htext : toStr value with
    | none => simp [htext]
    | some listed =>
      simp [htext, stripped_eq_iff, and_or_left, exists_or]

theorem transparent_tagged (hdigest : Function.Injective digest) (htaggable : Taggable inner)
    (hwhole : inner.body.breaksOff = false) (hfits : inner.body.bytes.length ≤ maxTaggedBodyBytes) :
    Transparent digest request inner (tagged digest request inner inner.body.bytes) := by
  simp only [tagged]
  split_ifs with hnames <;> rw [any_matchesTag_iff] at hnames
  · refine ⟨fun hnot => absurd ⟨htaggable, hfits, hnames⟩ hnot, fun _ _ _ => ⟨rfl, rfl⟩,
      fun _ _ hstar => ?_, fun hlarge => absurd hfits (not_le.mpr hlarge)⟩
    obtain ⟨candidate, hlisted, htag⟩ := hnames.resolve_left hstar
    exact ⟨candidate, hlisted, isTag_iff_eq hdigest htag⟩
  · refine ⟨fun _ => ⟨rfl, ?_⟩, fun _ _ h => absurd h hnames, fun h hne => absurd h hne,
      fun hlarge => absurd hfits (not_le.mpr hlarge)⟩
    rw [← hwhole]

end Tag

/-- The layer leaves every answer to a read as it is, or answers that it has not changed, exactly
unless a body that it would tag breaks off or is too large. -/
theorem etag_transparent_iff {digest : List UInt8 → List UInt8}
    (hdigest : Function.Injective digest) {request : Request} (hget : request.method = .get)
    (hpath : Text.startsWith request.path "/api/v1" = true) (inner : Response) :
    Transparent digest request inner (etag digest request inner) ↔
      ¬(Taggable inner ∧
        (inner.body.breaksOff = true ∨ maxTaggedBodyBytes < inner.body.bytes.length)) := by
  by_cases htaggable : Taggable inner
  · have ⟨hstatus, hjson, huntagged⟩ := htaggable
    have hetag : etag digest request inner = match toBytes inner.body maxTaggedBodyBytes with
        | none => unreadable
        | some bytes => tagged digest request inner bytes := by
      simp [etag, hget, hpath, hstatus, hjson, huntagged]
    rw [hetag, toBytes]
    split_ifs with hcut
    · refine iff_of_false (fun htransparent => ?_) (not_not.mpr ⟨htaggable, by simpa using hcut⟩)
      by_cases hnamed : inner.body.bytes.length ≤ maxTaggedBodyBytes ∧
          Names digest request inner.body.bytes
      · cases (htransparent.notModified htaggable hnamed.1 hnamed.2).1
      · have hpassed := (htransparent.passed fun hall => hnamed hall.2).1
        rw [hstatus] at hpassed
        cases hpassed
    · have hwhole : inner.body.breaksOff = false ∧
          inner.body.bytes.length ≤ maxTaggedBodyBytes := by
        simpa using hcut
      refine iff_of_true (transparent_tagged hdigest htaggable hwhole.1 hwhole.2) fun hbroken => ?_
      exact hcut (by simpa using hbroken.2)
  · have hetag : etag digest request inner = inner := by
      simp only [Taggable, not_and] at htaggable
      simp [etag]
      grind
    rw [hetag]
    exact iff_of_true ⟨fun _ => ⟨rfl, rfl⟩, fun h => absurd h htaggable, fun h hne => absurd h hne,
      fun _ => rfl⟩ fun h => htaggable h.1

/-- One byte too many. -/
def tooLarge : Response :=
  { status := 200, contentType := some (asBytes "application/json".toList), etag := none
    cacheControl := none, contentLength := none
    body := ⟨replicate (maxTaggedBodyBytes + 1) 0, false⟩ }

theorem tooLarge_fails : Taggable tooLarge ∧
    (etag id ⟨.get, "/api/v1/work", none⟩ tooLarge).status = 500 := by
  have hjson : isJson tooLarge.contentType = true := by decide +kernel
  have hcut : toBytes tooLarge.body maxTaggedBodyBytes = none := by simp [toBytes, tooLarge]
  have hpath : Text.startsWith "/api/v1/work" "/api/v1" = true := by decide +kernel
  refine ⟨⟨rfl, hjson, rfl⟩, ?_⟩
  simp [etag, hjson, hcut, hpath, show tooLarge.status = 200 from rfl,
    show tooLarge.etag = none from rfl, unreadable]

def oneItem : Response :=
  { tooLarge with body := ⟨asBytes "[1]".toList, false⟩ }

/-- The header lists the weak tag of the body. -/
def askedAgain : Request :=
  ⟨.get, "/api/v1/work", some (asBytes "\"00\", W/\"5b315d\"".toList)⟩

theorem etag_transparent_iff_listed : (etag id askedAgain oneItem).status = 304 ∧
    Transparent id askedAgain oneItem (etag id askedAgain oneItem) := by
  refine ⟨by decide +kernel,
    (etag_transparent_iff Function.injective_id rfl (by decide +kernel) _).mpr ?_⟩
  rintro ⟨-, hbroken | hlarge⟩
  · cases hbroken
  · exact absurd hlarge (by decide)

end JeryuForge.Conditional
