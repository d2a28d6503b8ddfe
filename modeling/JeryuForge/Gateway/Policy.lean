import JeryuForge.Gateway.Capability
import JeryuForge.Library.Fallible
import JeryuForge.Library.Uri

/-!
# Where a relay may go

The upstream of each provider, the paths enrolled for it and the headers a request may carry.
The address that is called is a host's name and a path put side by side; it is read as just
that.
-/

namespace JeryuForge.Gateway

open List

structure Upstream where
  baseUrl : String
  pathPrefixes : List String
  fixedHeaders : List (String × String)

structure UpstreamTable where
  claude : Option Upstream
  codex : Option Upstream
  grok : Option Upstream

def forbiddenInPath (char : Char) : Bool :=
  char.toNat < 32 || char.toNat = 127 || "?#%\\@ ".toList.contains char || 128 ≤ char.toNat

def validPath (path : String) : Bool :=
  if path.toList.head? ≠ some '/' ∨ 2048 < path.utf8ByteSize then false
  else if path.toList.any forbiddenInPath then false
  else
    (path.toList.tail.splitOn '/').all fun segment =>
      segment ≠ [] && segment ≠ ['.'] && segment ≠ ['.', '.']

namespace UpstreamTable

def production : UpstreamTable :=
  let upstream (host : String) : Upstream :=
    { baseUrl := "https://" ++ host, pathPrefixes := [], fixedHeaders := [] }
  { claude := some (upstream "api.anthropic.com")
    codex := some (upstream "api.openai.com")
    grok := some (upstream "api.x.ai") }

variable (table : UpstreamTable)

def slot (provider : String) : Option (Option Upstream) :=
  if provider = "claude" then some table.claude
  else if provider = "codex" then some table.codex
  else if provider = "grok" then some table.grok
  else none

def setSlot (provider : String) (upstream : Upstream) : UpstreamTable :=
  if provider = "claude" then { table with claude := some upstream }
  else if provider = "codex" then { table with codex := some upstream }
  else if provider = "grok" then { table with grok := some upstream }
  else table

def enroll (provider start : String) : Except RelayError UpstreamTable :=
  match table.slot provider with
  | none => .error .providerUnknown
  | some none => .error .upstreamHostDenied
  | some (some upstream) =>
    if validPath start then
      .ok (table.setSlot provider
        { upstream with pathPrefixes := upstream.pathPrefixes ++ [start] })
    else
      .error .relayStreamInvalid

def enrolledBy (path start : String) : Bool :=
  path = start || (start ++ "/").toList.isPrefixOf path.toList

def resolve (provider path : String) : Except RelayError (String × Upstream) :=
  match table.slot provider with
  | none => .error .providerUnknown
  | some none => .error .upstreamHostDenied
  | some (some upstream) =>
    if !validPath path then .error .relayStreamInvalid
    else if !upstream.pathPrefixes.any (enrolledBy path) then .error .upstreamHostDenied
    else .ok (upstream.baseUrl ++ path, upstream)

end UpstreamTable

structure Header where
  name : String
  value : String
deriving DecidableEq

/-- `accept` and `content-type`, at most one of each, with printable values. -/
def checkHeaders (headers : List Header) : Except RelayError Unit :=
  let printable (value : String) : Bool :=
    value ≠ "" && value.utf8ByteSize ≤ 256 &&
      value.toList.all fun char => 32 ≤ char.toNat && char.toNat < 127
  if headers.all (fun header =>
      (header.name = "accept" || header.name = "content-type") && printable header.value) &&
      (headers.map Header.name).Nodup then
    .ok ()
  else
    .error .relayStreamInvalid

def enrollAll (calls : List (String × String)) : UpstreamTable :=
  calls.foldl (fun table call =>
    match table.enroll call.1 call.2 with
    | .ok next => next
    | .error _ => table) UpstreamTable.production

def providerHost (provider : String) : Option String :=
  if provider = "claude" then some "api.anthropic.com"
  else if provider = "codex" then some "api.openai.com"
  else if provider = "grok" then some "api.x.ai"
  else none

def BuiltFrom (calls : List (String × String)) (table : UpstreamTable) : Prop :=
  ∀ provider upstream, table.slot provider = some (some upstream) →
    ∃ host, providerHost provider = some host ∧ upstream.baseUrl = "https://" ++ host ∧
      ∀ start ∈ upstream.pathPrefixes, validPath start = true ∧ (provider, start) ∈ calls

theorem slot_setSlot {table : UpstreamTable} {provider other : String}
    {upstream changed found : Upstream} (hslot : table.slot provider = some (some upstream))
    (hfound : (table.setSlot provider changed).slot other = some (some found)) :
    (other = provider ∧ found = changed) ∨ table.slot other = some (some found) := by
  by_cases hsame : other = provider
  · subst hsame
    have hset : (table.setSlot other changed).slot other = some (some changed) := by
      unfold UpstreamTable.slot at hslot
      unfold UpstreamTable.setSlot UpstreamTable.slot
      split_ifs at hslot ⊢ <;> rfl
    exact .inl ⟨rfl, Option.some.inj (Option.some.inj (hfound.symm.trans hset))⟩
  · right
    unfold UpstreamTable.slot UpstreamTable.setSlot at hfound
    unfold UpstreamTable.slot
    grind

theorem builtFrom_production : BuiltFrom [] UpstreamTable.production := by
  intro provider upstream hslot
  unfold UpstreamTable.slot at hslot
  unfold providerHost
  by_cases hclaude : provider = "claude"
  · rw [if_pos hclaude] at hslot ⊢
    cases hslot
    exact ⟨_, rfl, rfl, by simp⟩
  · rw [if_neg hclaude] at hslot ⊢
    by_cases hcodex : provider = "codex"
    · rw [if_pos hcodex] at hslot ⊢
      cases hslot
      exact ⟨_, rfl, rfl, by simp⟩
    · rw [if_neg hcodex] at hslot ⊢
      by_cases hgrok : provider = "grok"
      · rw [if_pos hgrok] at hslot ⊢
        cases hslot
        exact ⟨_, rfl, rfl, by simp⟩
      · rw [if_neg hgrok] at hslot
        cases hslot

theorem BuiltFrom.mono {calls more : List (String × String)} {table : UpstreamTable}
    (h : BuiltFrom calls table) (hsub : calls ⊆ more) : BuiltFrom more table := by
  intro provider upstream hslot
  obtain ⟨host, hhost, hbase, hstarts⟩ := h provider upstream hslot
  refine ⟨host, hhost, hbase, fun start hstart => ?_⟩
  obtain ⟨hvalid, hmem⟩ := hstarts start hstart
  exact ⟨hvalid, hsub hmem⟩

theorem BuiltFrom.enroll {calls : List (String × String)} {table next : UpstreamTable}
    (h : BuiltFrom calls table) {call : String × String}
    (henroll : table.enroll call.1 call.2 = .ok next) : BuiltFrom (calls ++ [call]) next := by
  have hmore : BuiltFrom (calls ++ [call]) table := h.mono (subset_append_left _ _)
  unfold UpstreamTable.enroll at henroll
  split at henroll
  · cases henroll
  · cases henroll
  next upstream hslot =>
    split at henroll
    next hvalid =>
      cases henroll
      intro provider found hfound
      rcases slot_setSlot hslot hfound with ⟨rfl, rfl⟩ | hfound
      · obtain ⟨host, hhost, hbase, hstarts⟩ := hmore call.1 upstream hslot
        refine ⟨host, hhost, hbase, fun start hstart => ?_⟩
        rcases mem_append.mp hstart with hstart | hstart
        · exact hstarts start hstart
        · rw [mem_singleton.mp hstart]
          exact ⟨hvalid, by simp⟩
      · exact hmore provider found hfound
    · cases henroll

theorem builtFrom_enrollAll (calls : List (String × String)) :
    BuiltFrom calls (enrollAll calls) := by
  induction calls using reverseRecOn with
  | nil => exact builtFrom_production
  | append_singleton calls call ih =>
    unfold enrollAll at ih ⊢
    rw [foldl_append, foldl_cons, foldl_nil]
    split
    next next henroll =>
      exact ih.enroll henroll
    · exact ih.mono (subset_append_left _ _)

structure ValidPath (path : List Char) : Prop where
  start : path.head? = some '/'
  chars : ∀ char ∈ path, forbiddenInPath char = false
  plain : ∀ segment ∈ Uri.segments path, Uri.Plain segment

theorem validPath_eq_true {path : String} (hvalid : validPath path = true) :
    ValidPath path.toList := by
  unfold validPath at hvalid
  split at hvalid
  · cases hvalid
  next hshape =>
    split at hvalid
    · cases hvalid
    next hchars =>
      rw [not_or, not_not] at hshape
      refine ⟨hshape.1, ?_, ?_⟩
      · intro char hchar
        rw [Bool.eq_false_iff]
        exact fun hforbidden => hchars (any_eq_true.mpr ⟨char, hchar, hforbidden⟩)
      · intro segment hsegment
        have hplain := all_eq_true.mp hvalid segment hsegment
        simp only [Bool.and_eq_true, decide_eq_true_eq] at hplain
        exact ⟨hplain.1.1, hplain.1.2, hplain.2, Uri.slash_notMem_splitOn _ segment hsegment⟩

theorem resolve_ok {table : UpstreamTable} {provider path url : String} {upstream : Upstream}
    (hresolve : table.resolve provider path = .ok (url, upstream)) :
    table.slot provider = some (some upstream) ∧ validPath path = true ∧
      url = upstream.baseUrl ++ path ∧
      ∃ start ∈ upstream.pathPrefixes, UpstreamTable.enrolledBy path start = true := by
  unfold UpstreamTable.resolve at hresolve
  split at hresolve
  · cases hresolve
  · cases hresolve
  next found hslot =>
    split at hresolve
    · cases hresolve
    next hvalid =>
      split at hresolve
      · cases hresolve
      next henrolled =>
        cases hresolve
        simp only [Bool.not_eq_true', Bool.not_eq_false] at hvalid henrolled
        exact ⟨hslot, hvalid, rfl, any_eq_true.mp henrolled⟩

theorem segments_of_enrolledBy {path start : String} (hstart : start.toList ≠ [])
    (henrolled : UpstreamTable.enrolledBy path start = true) :
    Uri.segments start.toList <+: Uri.segments path.toList := by
  unfold UpstreamTable.enrolledBy at henrolled
  simp only [Bool.or_eq_true, decide_eq_true_eq] at henrolled
  rcases henrolled with rfl | hlonger
  · exact prefix_rfl
  · obtain ⟨rest, hrest⟩ := isPrefixOf_iff_prefix.mp hlonger
    have hpath : path.toList = start.toList ++ '/' :: rest := by
      rw [← hrest]
      simp
    rw [hpath, Uri.segments_append hstart]
    exact prefix_append _ _

theorem nameOnly_providerHost {provider host : String} (hhost : providerHost provider = some host) :
    Uri.NameOnly host.toList := by
  unfold providerHost at hhost
  unfold Uri.NameOnly
  split at hhost
  · cases hhost
    decide
  · split at hhost
    · cases hhost
      decide
    · split at hhost
      · cases hhost
        decide
      · cases hhost

/-- Every address that a table built by enrolling gives is read as a URI with the scheme
`https`, the provider's host alone as authority, neither query nor fragment, and a path without
dot segments that goes on from a path enrolled for the provider. -/
theorem resolve_uri (calls : List (String × String)) (provider path url : String)
    (upstream : Upstream)
    (hresolve : (enrollAll calls).resolve provider path = .ok (url, upstream)) :
    ∃ host, providerHost provider = some host ∧
      Uri.components url.toList =
        { scheme := some "https".toList, authority := some host.toList, path := path.toList
          query := none, fragment := none } ∧
      Uri.authority host.toList = { userinfo := none, host := host.toList, port := none } ∧
      Uri.removeDotSegments path.toList = path.toList ∧
      ∃ start, (provider, start) ∈ calls ∧ validPath start = true ∧
        Uri.segments start.toList <+: Uri.segments path.toList := by
  obtain ⟨hslot, hvalid, rfl, start, hstart, henrolled⟩ := resolve_ok hresolve
  obtain ⟨host, hhost, hbase, hstarts⟩ := builtFrom_enrollAll calls provider upstream hslot
  obtain ⟨hstartValid, hcall⟩ := hstarts start hstart
  have hpath := validPath_eq_true hvalid
  have hname := nameOnly_providerHost hhost
  refine ⟨host, hhost, ?_, Uri.authority_name hname, ?_, start, hcall, hstartValid, ?_⟩
  · have htext : (upstream.baseUrl ++ path).toList =
        "https".toList ++ ':' :: '/' :: '/' :: (host.toList ++ path.toList) := by
      rw [hbase]
      simp
    rw [htext]
    refine Uri.components_absolute (by decide) (by decide) hname hpath.start ?_
    intro char hchar hstop
    have hgood := hpath.chars char hchar
    simp only [mem_cons, not_mem_nil, or_false] at hstop
    rcases hstop with rfl | rfl <;> cases hgood
  · have hsame := Uri.absolute_segments hpath.start
    rw [← hsame]
    exact Uri.removeLoop_absolute hpath.plain (Uri.length_le_absolute _) []
  · refine segments_of_enrolledBy ?_ henrolled
    intro hnil
    have hhead := (validPath_eq_true hstartValid).start
    rw [hnil] at hhead
    cases hhead

theorem resolve_uri_messages :
    Uri.components "https://api.anthropic.com/v1/messages/batches".toList =
        { scheme := some "https".toList, authority := some "api.anthropic.com".toList
          path := "/v1/messages/batches".toList, query := none, fragment := none } := by
  have hresolve : ((enrollAll [("claude", "/v1/messages")]).resolve "claude"
      "/v1/messages/batches").toOption.isSome = true := by
    decide +kernel
  obtain ⟨host, hhost, huri, _⟩ := resolve_uri [("claude", "/v1/messages")] "claude"
    "/v1/messages/batches" _ _ (Except.eq_ok_get hresolve)
  cases hhost
  exact huri

end JeryuForge.Gateway
