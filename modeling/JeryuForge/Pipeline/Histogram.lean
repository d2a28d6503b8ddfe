import JeryuForge.Text

/-!
# The event histogram's window

The refusals of a histogram request: its values, its hours, its kind, and a window of more
buckets than one answer holds, for which a wider bucket is suggested.
-/

namespace JeryuForge.Pipeline.Histogram

open List Option

structure HistogramQuery where
  range : Option String
  hours : Option Int
  bucket : Option String
  kind : Option String

/-- The debug form of a text, and which kinds may be asked for. -/
structure Texts where
  debug : String → String
  validKindFilter : String → Bool

def buckets : List (String × Int) :=
  [("5m", 300), ("15m", 900), ("1h", 3600), ("1d", 86400)]

def defaultHours : Int := 24

def maxHours : Int := 720

def maxBuckets : Int := 1500

def filterOneOf (texts : Texts) (name : String) (value : Option String) (allowed : List String) :
    Option String :=
  (Text.nonEmpty value).bind fun value =>
    if value ∈ allowed then
      none
    else
      some (name ++ ": " ++ texts.debug value ++ " is not one of " ++ ", ".intercalate allowed)

def checkValues (texts : Texts) (query : HistogramQuery) : Option String :=
  let rangeHours (range : String) : Int :=
    if range = "6h" then 6 else if range = "24h" then 24 else 168
  let windows := query.range.bind fun range =>
    if query.hours.any (· ≠ rangeHours range) then
      some "range and hours name different windows; send one"
    else
      none
  ((filterOneOf texts "range" query.range ["6h", "24h", "7d"]).or windows).or
    (filterOneOf texts "bucket" query.bucket (buckets.map Prod.fst))

def defaultBucketSeconds (hours : Int) : Int :=
  if hours ≤ 2 then 300 else if hours ≤ 12 then 900 else if hours ≤ 168 then 3600 else 86400

def bucketSeconds (label : Option String) (hours : Int) : Int :=
  match Text.nonEmpty label with
  | none => defaultBucketSeconds hours
  | some label =>
    ((buckets.find? fun bucket => bucket.1 = label).map Prod.snd).getD
      (defaultBucketSeconds hours)

def fittingLabel (hours : Int) : String :=
  ((buckets.find? fun bucket => hours * 3600 / bucket.2 ≤ maxBuckets).map Prod.fst).getD "1d"

def window (nowMs hours bucketMs : Int) : Int × Int :=
  let fromMs := (nowMs - hours * 3600000) / bucketMs * bucketMs
  (fromMs, fromMs + ((nowMs - fromMs) / bucketMs + 1) * bucketMs)

inductive Refusal where
  | badValues (reason : String)
  | badHours (hours : Int)
  | badKind (kind : String)
  | tooMany (hours seconds count : Int) (label : String)

def Refusal.reason (texts : Texts) : Refusal → String
  | .badValues reason => reason
  | .badHours hours =>
    "hours must be from 1 to 720, got " ++ toString hours ++ "; it is not clamped"
  | .badKind kind =>
    "kind: " ++ texts.debug kind ++ " is neither a kind (todo.claimed) nor a prefix (todo.)"
  | .tooMany hours seconds count _ =>
    "hours=" ++ toString hours ++ " with bucket=" ++ toString seconds ++ " is " ++
      toString count ++ " buckets, more than the 1500 one answer holds"

def Refusal.hint : Refusal → String
  | .badValues _ => "hours is an integer from 1 to 720; bucket is 5m, 15m, 1h or 1d"
  | .badHours _ => "send hours from 1 to 720, or omit it for 24"
  | .badKind _ => "use a dotted lower-case kind, or a prefix that ends in a dot"
  | .tooMany _ _ _ label => "ask for bucket=" ++ label ++ " over this window"

def askedHours (query : HistogramQuery) : Int :=
  query.hours.getD
    (if query.range = some "6h" then 6
    else if query.range = some "24h" then 24
    else if query.range = some "7d" then 168
    else defaultHours)

def askedSeconds (query : HistogramQuery) : Int :=
  if query.bucket.isNone then
    if query.range = some "6h" then 300
    else if query.range = some "24h" then 1800
    else if query.range = some "7d" then 21600
    else bucketSeconds none (askedHours query)
  else
    bucketSeconds query.bucket (askedHours query)

def histogram (texts : Texts) (nowMs : Int) (query : HistogramQuery) :
    Except Refusal (Int × Int × Int) :=
  match checkValues texts query with
  | some reason => .error (.badValues reason)
  | none =>
    let hours := askedHours query
    if ¬(1 ≤ hours ∧ hours ≤ maxHours) then
      .error (.badHours hours)
    else
      match (query.kind.filter fun kind => !kind.isEmpty).filter
          fun kind => !texts.validKindFilter kind with
      | some kind => .error (.badKind kind)
      | none =>
        let bucketMs := askedSeconds query * 1000
        let (fromMs, toMs) := window nowMs hours bucketMs
        let count := (toMs - fromMs) / bucketMs
        if count > maxBuckets then
          .error (.tooMany hours (bucketMs / 1000) count (fittingLabel hours))
        else
          .ok (fromMs, toMs, bucketMs)

/-- The answer of the route: the window and its bucket, or the reason and the hint of a 400. -/
def answer (texts : Texts) (nowMs : Int) (query : HistogramQuery) :
    Except (String × String) (Int × Int × Int) :=
  (histogram texts nowMs query).mapError fun refusal => (refusal.reason texts, refusal.hint)

def tooMany : Except Refusal (Int × Int × Int) → Bool
  | .error (.tooMany ..) => true
  | _ => false

variable {texts : Texts} {nowMs : Int} {query : HistogramQuery}

theorem tooMany_histogram_iff :
    tooMany (histogram texts nowMs query) = true ↔
      checkValues texts query = none ∧ (1 ≤ askedHours query ∧ askedHours query ≤ maxHours) ∧
      (query.kind.filter fun kind => !kind.isEmpty).filter
        (fun kind => !texts.validKindFilter kind) = none ∧
      let bucketMs := askedSeconds query * 1000
      let bounds := window nowMs (askedHours query) bucketMs
      maxBuckets < (bounds.2 - bounds.1) / bucketMs := by
  unfold histogram
  cases hvalues : checkValues texts query with
  | some reason => simp [tooMany]
  | none =>
    by_cases hhours : 1 ≤ askedHours query ∧ askedHours query ≤ maxHours
    · cases hkind : (query.kind.filter fun kind => !kind.isEmpty).filter
          (fun kind => !texts.validKindFilter kind) with
      | some kind => simp [hhours, tooMany]
      | none =>
        dsimp only
        rw [if_neg (not_not_intro hhours)]
        split <;> simp_all [tooMany]
    · simp [hhours, tooMany]

theorem answer_of_tooMany (hrefused : tooMany (histogram texts nowMs query) = true) :
    ∃ reason, answer texts nowMs query = .error
      (reason, "ask for bucket=" ++ fittingLabel (askedHours query) ++ " over this window") := by
  obtain ⟨hvalues, hhours, hkind, hcount⟩ := tooMany_histogram_iff.mp hrefused
  simp only [answer, histogram, hvalues, hhours, hkind]
  rw [if_neg (by simp), if_pos hcount]
  exact ⟨_, rfl⟩

variable {hours seconds : Int} {label : String}

theorem count_window {bucketMs width : Int} (hpos : 0 < bucketMs)
    (hwhole : hours * 3600000 = width * bucketMs) :
    ((window nowMs hours bucketMs).2 - (window nowMs hours bucketMs).1) / bucketMs =
      width + 1 := by
  have hfrom : (nowMs - hours * 3600000) / bucketMs = nowMs / bucketMs - width := by
    rw [hwhole, Int.sub_mul_ediv_right _ _ hpos.ne']
  have hrest : nowMs - (nowMs / bucketMs - width) * bucketMs =
      nowMs % bucketMs + width * bucketMs := by
    have hsplit := Int.emod_add_mul_ediv nowMs bucketMs
    linarith [mul_comm bucketMs (nowMs / bucketMs)]
  unfold window
  dsimp only
  rw [hfrom, hrest, Int.add_mul_ediv_right _ _ hpos.ne',
    Int.ediv_eq_zero_of_lt (Int.emod_nonneg _ hpos.ne') (Int.emod_lt_of_pos _ hpos),
    add_sub_cancel_left, Int.mul_ediv_cancel _ hpos.ne', zero_add]

theorem fittingLabel_spec (hlow : 1 ≤ hours) (hhigh : hours ≤ maxHours) :
    ∃ seconds width, (fittingLabel hours, seconds) ∈ buckets ∧
      hours * 3600000 = width * (seconds * 1000) ∧
      (width + 1 ≤ maxBuckets ↔ hours ≠ 125 ∧ hours ≠ 375) := by
  unfold maxHours at hhigh
  unfold fittingLabel maxBuckets
  by_cases hfive : hours ≤ 125
  · have hfits : hours * 3600 / 300 ≤ 1500 := by omega
    simp only [buckets, find?_cons, hfits, decide_true, map_some, getD_some]
    exact ⟨300, hours * 12, by decide, by omega, by omega⟩
  · have hfive : ¬hours * 3600 / 300 ≤ 1500 := by omega
    by_cases hfifteen : hours ≤ 375
    · have hfits : hours * 3600 / 900 ≤ 1500 := by omega
      simp only [buckets, find?_cons, hfive, hfits, decide_true, decide_false,
        map_some, getD_some]
      exact ⟨900, hours * 4, by decide, by omega, by omega⟩
    · have hfifteen : ¬hours * 3600 / 900 ≤ 1500 := by omega
      have hfits : hours * 3600 / 3600 ≤ 1500 := by omega
      simp only [buckets, find?_cons, hfive, hfifteen, hfits, decide_true, decide_false,
        map_some, getD_some]
      exact ⟨3600, hours, by decide, by omega, by omega⟩

section Shared

variable (hlabel : (label, seconds) ∈ buckets)
include hlabel

theorem nonEmpty_label : Text.nonEmpty (some label) = some label := by
  simp only [buckets, mem_cons, Prod.mk.injEq, not_mem_nil, or_false] at hlabel
  rcases hlabel with ⟨rfl, -⟩ | ⟨rfl, -⟩ | ⟨rfl, -⟩ | ⟨rfl, -⟩ <;> decide

theorem bucketSeconds_label : bucketSeconds (some label) hours = seconds := by
  unfold bucketSeconds
  rw [nonEmpty_label hlabel]
  simp only [buckets, mem_cons, Prod.mk.injEq, not_mem_nil, or_false] at hlabel
  rcases hlabel with ⟨rfl, rfl⟩ | ⟨rfl, rfl⟩ | ⟨rfl, rfl⟩ | ⟨rfl, rfl⟩ <;> rfl

theorem askedSeconds_label : askedSeconds { query with bucket := some label } = seconds := by
  unfold askedSeconds
  simp only [isNone_some, Bool.false_eq_true, if_false]
  exact bucketSeconds_label hlabel

theorem checkValues_label (hvalues : checkValues texts query = none) :
    checkValues texts { query with bucket := some label } = none := by
  have hbucket : filterOneOf texts "bucket" (some label) (buckets.map Prod.fst) = none := by
    unfold filterOneOf
    rw [nonEmpty_label hlabel, bind_some, if_pos (mem_map.mpr ⟨_, hlabel, rfl⟩)]
  simp only [checkValues, or_eq_none_iff] at hvalues ⊢
  exact ⟨hvalues.1, hbucket⟩

end Shared

/-- A refused request names a bucket, and repeated at any time with it is taken, except over 125 or
375 hours: there the bucket now is one too many. -/
theorem suggestion_fits_iff (texts : Texts) (nowMs : Int) (query : HistogramQuery)
    (hrefused : tooMany (histogram texts nowMs query) = true) :
    (∃ reason, answer texts nowMs query = .error
      (reason, "ask for bucket=" ++ fittingLabel (askedHours query) ++ " over this window")) ∧
    ((∀ laterMs, tooMany (histogram texts laterMs
        { query with bucket := some (fittingLabel (askedHours query)) }) = false) ↔
      askedHours query ≠ 125 ∧ askedHours query ≠ 375) := by
  refine ⟨answer_of_tooMany hrefused, ?_⟩
  obtain ⟨hvalues, hhours, hkind, -⟩ := tooMany_histogram_iff.mp hrefused
  obtain ⟨seconds, width, hlabel, hwhole, hfits⟩ := fittingLabel_spec hhours.1 hhours.2
  have hpos : 0 < seconds * 1000 := by
    simp only [buckets, mem_cons, Prod.mk.injEq, not_mem_nil, or_false] at hlabel
    omega
  have hcount : ∀ laterMs, tooMany (histogram texts laterMs
      { query with bucket := some (fittingLabel (askedHours query)) }) = true ↔
        maxBuckets < width + 1 := by
    intro laterMs
    rw [tooMany_histogram_iff, askedSeconds_label hlabel]
    dsimp only
    rw [show askedHours { query with bucket := some (fittingLabel (askedHours query)) } =
      askedHours query from rfl, count_window hpos hwhole]
    exact ⟨fun hall => hall.2.2.2,
      fun hmany => ⟨checkValues_label hlabel hvalues, hhours, hkind, hmany⟩⟩
  rw [← hfits, ← not_lt]
  constructor
  · intro hnever hmany
    exact nomatch ((hcount 0).mpr hmany).symm.trans (hnever 0)
  · intro hfew laterMs
    exact Bool.eq_false_iff.mpr fun hmany => hfew ((hcount laterMs).mp hmany)

def plainTexts : Texts where
  debug text := "\"" ++ text ++ "\""
  validKindFilter _ := true

def everyFiveMinutes (hours : Int) : HistogramQuery :=
  { range := none, hours := some hours, bucket := some "5m", kind := none }

theorem fiveMinutes_suggested_again :
    tooMany (histogram plainTexts 0 (everyFiveMinutes 125)) = true ∧
      fittingLabel 125 = "5m" ∧
      tooMany (histogram plainTexts 1000 (everyFiveMinutes 125)) = true := by
  decide

theorem suggestion_fits_iff_twoHundred :
    tooMany (histogram plainTexts 0 (everyFiveMinutes 200)) = true ∧
      ∀ laterMs, tooMany (histogram plainTexts laterMs
        { everyFiveMinutes 200 with bucket := some (fittingLabel 200) }) = false :=
  ⟨by decide, (suggestion_fits_iff plainTexts 0 (everyFiveMinutes 200) (by decide)).2.mpr
    (by decide)⟩

end JeryuForge.Pipeline.Histogram
