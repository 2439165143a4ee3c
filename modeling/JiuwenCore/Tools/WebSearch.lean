import JiuwenCore.Config.AgentConfig
import JiuwenCore.Lib.Runs
import JiuwenCore.Lib.TimedCache
import JiuwenCore.Utils.ToolParser

/-!
# Searching the web

A search asks one engine after the other until one has results. The results of an engine are
kept for its query, cut to as many as the call asked for that brought them.

What an engine answers is taken as fixed: a ranked list for each query, or an error.
-/

namespace JiuwenCore.Tools.WebSearchTool

/-! ## The engines -/

structure WebSearchResult where
  title : Str
  url : Str
  snippet : Str
  deriving DecidableEq, Repr

inductive Engine
  | duckDuckGo | wikipedia | baidu | sogou | bing
  deriving DecidableEq, Repr

def Engine.name : Engine → Str
  | duckDuckGo => lit "duckduckgo"
  | wikipedia => lit "wikipedia"
  | baidu => lit "baidu"
  | sogou => lit "sogou"
  | bing => lit "bing"

/-- The ranked list of an engine for a query, or what is wrong with its response. -/
abbrev Web := Engine → Str → Except Str (List WebSearchResult)

structure EngineOutcome where
  ok : Bool := false
  errMsg : Str := []
  rows : List WebSearchResult := []
  engine : Engine
  deriving DecidableEq, Repr

abbrev ResultCache := TimedCache.Cache Str (List WebSearchResult)

def cacheKey (engine : Engine) (query : Str) : Str := engine.name ++ lit "|" ++ query

def ttlSeconds : Int := 300

/-- When the cache is asked, and when a result is put there. -/
structure Times where
  lookupAt : Engine → Int
  storeAt : Engine → Int

/-- What the search functions of the engines share. -/
@[grind =] def searchEngine (engine : Engine) (zeroResults : Str) (web : Web) (times : Times)
    (cache : ResultCache) (query : Str) (maxResults : Int) : EngineOutcome × ResultCache :=
  match TimedCache.lookup cache (cacheKey engine query) (times.lookupAt engine) with
  | (some rows, cache) => ({ ok := true, rows := rows, engine := engine }, cache)
  | (none, cache) =>
      match web engine query with
      | .error errMsg => ({ errMsg := errMsg, engine := engine }, cache)
      | .ok ranked =>
          let rows := ranked.take maxResults.toNat
          if rows = [] then ({ errMsg := zeroResults, engine := engine }, cache)
          else
            ({ ok := true, rows := rows, engine := engine },
              TimedCache.store cache (cacheKey engine query) rows (times.storeAt engine) ttlSeconds)

def searchDuckDuckGo := searchEngine .duckDuckGo (lit "ddg parsed zero results")

def searchWikipedia := searchEngine .wikipedia (lit "wikipedia zero results")

def searchBaidu := searchEngine .baidu (lit "baidu parsed zero results")

def searchSogou := searchEngine .sogou (lit "sogou parsed zero results")

def searchBing := searchEngine .bing (lit "bing parsed zero results")

def Engine.search : Engine → Web → Times → ResultCache → Str → Int → EngineOutcome × ResultCache
  | duckDuckGo => searchDuckDuckGo
  | wikipedia => searchWikipedia
  | baidu => searchBaidu
  | sogou => searchSogou
  | bing => searchBing

/-! ## A search -/

/-- `ContainsCJK`, with bytes of a character still to be passed. -/
def containsCJKFrom : Nat → Str → Bool
  | _, [] => false
  | skip + 1, _ :: rest => containsCJKFrom skip rest
  | 0, c :: rest =>
      if c < 0x80 then containsCJKFrom 0 rest
      else if 0xE3 ≤ c ∧ c ≤ 0xEF ∧ 2 ≤ rest.length then
        let b1 := rest[0]?.getD 0
        let b2 := rest[1]?.getD 0
        let cp := (c &&& 0x0F).toNat * 4096 + (b1 &&& 0x3F).toNat * 64 + (b2 &&& 0x3F).toNat
        if 0x3000 ≤ cp ∧ cp ≤ 0x9FFF ∨ 0xF900 ≤ cp ∧ cp ≤ 0xFAFF ∨ 0xFF00 ≤ cp ∧ cp ≤ 0xFFEF then
          true
        else containsCJKFrom 2 rest
      else if 0xC0 ≤ c ∧ c < 0xE0 then containsCJKFrom 1 rest
      else if 0xF0 ≤ c then containsCJKFrom 3 rest
      else containsCJKFrom 0 rest

def containsCJK (query : Str) : Bool := containsCJKFrom 0 query

/-- The engines of a query, in the order in which they are asked. -/
def engines (query : Str) : List Engine :=
  if containsCJK query then [.baidu, .sogou] else [.duckDuckGo, .wikipedia, .bing]

/-- The first engine that has results, and the errors of those before it. -/
@[grind =] def choose (web : Web) (times : Times) (query : Str) (maxResults : Int) :
    List Engine → List Str → ResultCache → (Option EngineOutcome × List Str) × ResultCache
  | [], errs, cache => ((none, errs), cache)
  | engine :: rest, errs, cache =>
      let (outcome, cache) := engine.search web times cache query maxResults
      if outcome.ok then ((some outcome, errs), cache)
      else
        choose web times query maxResults rest
          (errs ++ [outcome.engine.name ++ lit ": " ++ outcome.errMsg]) cache

structure Request where
  query : Str
  maxResults : Int := 8
  deriving DecidableEq, Repr

/-- What a search comes to: there is no query, or what the engines gave for the trimmed one. -/
inductive Found
  | noQuery
  | searched (query : Str) (chosen : Option EngineOutcome) (errs : List Str)
  deriving DecidableEq, Repr

def clampResults (maxResults : Int) : Int :=
  let maxResults := if maxResults < 1 then 1 else maxResults
  if maxResults > 20 then 20 else maxResults

/-- `Invoke` behind the reading of its input. -/
def search (web : Web) (times : Times) (cache : ResultCache) (request : Request) :
    Found × ResultCache :=
  let query := trimStr request.query
  if query = [] then (.noQuery, cache)
  else
    let ((chosen, errs), cache) :=
      choose web times query (clampResults request.maxResults) (engines query) [] cache
    (.searched query chosen errs, cache)

def rowText (i : Nat) (r : WebSearchResult) : Str :=
  toDecimal (i + 1) ++ lit ". " ++ r.title ++ lit "\n" ++
    (if r.url = [] then [] else lit "   URL: " ++ r.url ++ lit "\n") ++
    if r.snippet = [] then [] else lit "   Snippet: " ++ r.snippet ++ lit "\n"

def Found.text : Found → Str
  | noQuery => lit "Error: query is required and cannot be empty"
  | searched query (some chosen) _ =>
      lit "Search results (" ++ chosen.engine.name ++ lit ") for: " ++ query ++ lit "\n" ++
        (chosen.rows.zipIdx.flatMap fun row => rowText row.2 row.1)
  | searched query none errs =>
      lit "Error: all search engines failed for query: " ++ query ++
        (errs.flatMap fun e => lit "\n  - " ++ e) ++
        lit ("\nNote: the agent's outbound IP appears flagged by all " ++
          "engines. Consider waiting ~60s before retrying, using " ++
          "web_fetcher on a URL you already know, or rephrasing the " ++
          "query rather than re-searching with the same terms.")

/-- The arguments of a call; `none` where the library throws. -/
def readRequest (lib : JsonLib) (input : Str) : Option Request :=
  if input.head? = some 123 then
    (lib.parse input).map fun j =>
      { query := (j.stringMember (lit "query")).getD []
        maxResults :=
          match j.member (lit "max_results") with
          | some (.int i) => (Int32.ofInt i).toInt
          | _ => 8 }
  else some { query := input }

/-- `WebSearchTool::Invoke`; `what` is the text of the library's exception. -/
def invoke (lib : JsonLib) (what : Str → Str) (web : Web) (times : Times) (cache : ResultCache)
    (input : Str) : Str × ResultCache :=
  match readRequest lib input with
  | none => (lit "Error: invalid JSON input: " ++ what input, cache)
  | some request =>
      let (found, cache) := search web times cache request
      (found.text, cache)

/-! ## What the cache should not change -/

/-- One call after the other, each with the cache the one before it has left. -/
def step (web : Web) (cache : ResultCache) (call : Request × Times) : Option ResultCache :=
  some (search web call.2 cache call.1).2

def Found.rows : Found → List WebSearchResult
  | searched _ (some chosen) _ => chosen.rows
  | _ => []

/-- A call gives what it would give with an empty cache, and no more rows than it asks for. -/
def Transparent (web : Web) (cache : ResultCache) (request : Request) (times : Times) : Prop :=
  (search web times cache request).1 = (search web times OrderedMap.empty request).1 ∧
    ((search web times cache request).1.rows.length : Int) ≤ clampResults request.maxResults

/-- Whether an engine has results for a query. -/
def answers (web : Web) (query : Str) (engine : Engine) : Bool :=
  match web engine query with
  | .ok (_ :: _) => true
  | _ => false

def ranked (web : Web) (query : Str) (engine : Engine) : List WebSearchResult :=
  match web engine query with
  | .ok rows => rows
  | .error _ => []

/-- The rows that the cache has for the first engine with results are as many as the call asks
for, or all there are. -/
def SameCut (web : Web) (cache : ResultCache) (request : Request) (times : Times) : Prop :=
  let query := trimStr request.query
  ∀ engine ∈ (engines query).find? (answers web query), ∀ rows,
    TimedCache.live cache (cacheKey engine query) (times.lookupAt engine) = some rows →
      rows.length = min (clampResults request.maxResults).toNat (ranked web query engine).length

/-! ## What is in the cache -/

/-- The cut of a ranked list, under the key of its engine and query. -/
def Cut (web : Web) (key : Str) (rows : List WebSearchResult) : Prop :=
  ∃ engine query m, key = cacheKey engine query ∧ query ≠ [] ∧ rows ≠ [] ∧
    rows = (ranked web query engine).take m

theorem name_noBar (engine : Engine) : 124 ∉ engine.name := by
  cases engine <;> decide

theorem cacheKey_inj {engine engine' : Engine} {query query' : Str}
    (h : cacheKey engine query = cacheKey engine' query') : engine = engine' ∧ query = query' := by
  have hcut : ∀ (e : Engine) (q : Str), (cacheKey e q).takeWhile (· ≠ 124) = e.name := by
    intro e q
    have hname : ∀ b ∈ e.name, decide (b ≠ 124) = true := by
      intro b hb
      have hbar : b ≠ 124 := fun hbar => name_noBar e (hbar ▸ hb)
      simp [hbar]
    rw [cacheKey, List.append_assoc, List.takeWhile_append_of_pos hname]
    simp [lit]
  have hname : engine.name = engine'.name := by rw [← hcut engine query, h, hcut]
  have hengine : engine = engine' := by
    cases engine <;> cases engine' <;> first | rfl | (revert hname; decide)
  subst hengine
  rw [cacheKey, cacheKey] at h
  exact ⟨rfl, List.append_cancel_left h⟩

section Search

variable {web : Web} {cache : ResultCache} {query : Str}

theorem answers_iff {engine : Engine} :
    answers web query engine = true ↔ ranked web query engine ≠ [] := by
  unfold answers ranked
  cases web engine query with
  | error e => simp
  | ok rows => cases rows <;> simp

/-- What is found for an engine and a query is a cut of its list. -/
theorem cut_live (h : TimedCache.Holds cache (Cut web)) {engine : Engine} {now : Int}
    {rows : List WebSearchResult}
    (hlive : TimedCache.live cache (cacheKey engine query) now = some rows) :
    query ≠ [] ∧ rows ≠ [] ∧ ∃ m, rows = (ranked web query engine).take m := by
  obtain ⟨engine', query', m, hkey, hquery, hne, hrows⟩ := h.live hlive
  obtain ⟨rfl, rfl⟩ := cacheKey_inj hkey
  exact ⟨hquery, hne, m, hrows⟩

/-- An engine without results is never in the cache. -/
theorem not_cut {engine : Engine} (h : answers web query engine = false)
    (rows : List WebSearchResult) : ¬ Cut web (cacheKey engine query) rows := by
  intro hcut
  obtain ⟨engine', query', m, hkey, -, hne, hrows⟩ := hcut
  obtain ⟨rfl, rfl⟩ := cacheKey_inj hkey
  have hranked : ranked web query engine = [] := by
    by_contra hranked
    rw [answers_iff.mpr hranked] at h
    cases h
  rw [hranked, List.take_nil] at hrows
  exact hne hrows

/-! ## One engine -/

/-- The search of each engine, with its own text for no results. -/
theorem search_eq (engine : Engine) :
    ∃ zeroResults, engine.search = searchEngine engine zeroResults := by
  cases engine
  · exact ⟨_, rfl⟩
  · exact ⟨_, rfl⟩
  · exact ⟨_, rfl⟩
  · exact ⟨_, rfl⟩
  · exact ⟨_, rfl⟩

/-- An engine without results gives the same error whatever is in the cache. -/
theorem search_fails {engine : Engine} (h : answers web query engine = false) (times : Times)
    (maxResults : Int) :
    ∃ errMsg, ∀ cache, TimedCache.Holds cache (Cut web) →
      engine.search web times cache query maxResults =
        ({ errMsg := errMsg, engine := engine }, cache) := by
  obtain ⟨zeroResults, hsearch⟩ := search_eq engine
  rw [hsearch]
  cases hweb : web engine query with
  | error errMsg =>
      refine ⟨errMsg, fun cache hcache => ?_⟩
      rw [searchEngine, hcache.lookup_none (not_cut h)]
      simp only [hweb]
  | ok rows =>
      have hrows : rows = [] := by
        cases rows with
        | nil => rfl
        | cons row rows => simp [answers, hweb] at h
      refine ⟨zeroResults, fun cache hcache => ?_⟩
      rw [searchEngine, hcache.lookup_none (not_cut h)]
      simp [hweb, hrows]

/-- An engine with results gives what is in the cache, or the first rows of its list. -/
theorem search_answers {engine : Engine} (h : answers web query engine = true) (times : Times)
    {maxResults : Int} (hmax : 1 ≤ maxResults) (cache : ResultCache) :
    (engine.search web times cache query maxResults).1 =
      { ok := true
        rows := (TimedCache.live cache (cacheKey engine query) (times.lookupAt engine)).getD
          ((ranked web query engine).take maxResults.toNat)
        engine := engine } := by
  obtain ⟨zeroResults, hsearch⟩ := search_eq engine
  rw [hsearch, ← TimedCache.lookup_fst, searchEngine]
  split
  · rename_i rows cache' hlookup
    rw [hlookup, Option.getD_some]
  · rename_i cache' hlookup
    rw [hlookup, Option.getD_none]
    have hne : ranked web query engine ≠ [] := answers_iff.mp h
    cases hweb : web engine query with
    | error errMsg => exact absurd (by rw [ranked, hweb]) hne
    | ok rows =>
        have hranked : ranked web query engine = rows := by rw [ranked, hweb]
        have htake : rows.take maxResults.toNat ≠ [] := by
          rw [hranked] at hne
          simp only [ne_eq, List.take_eq_nil_iff, hne, or_false]
          omega
        simp only [hranked, htake, if_false]

theorem search_holds (engine : Engine) (times : Times) (maxResults : Int)
    (hcache : TimedCache.Holds cache (Cut web)) (hquery : query ≠ []) :
    TimedCache.Holds (engine.search web times cache query maxResults).2 (Cut web) := by
  obtain ⟨zeroResults, hsearch⟩ := search_eq engine
  have hlooked := hcache.lookup (cacheKey engine query) (times.lookupAt engine)
  rw [hsearch, searchEngine]
  split
  · rename_i rows cache' hlookup
    rw [hlookup] at hlooked
    exact hlooked
  · rename_i cache' hlookup
    rw [hlookup] at hlooked
    cases hweb : web engine query with
    | error errMsg => exact hlooked
    | ok rows =>
        have hranked : ranked web query engine = rows := by rw [ranked, hweb]
        simp only
        split
        · exact hlooked
        · rename_i hne
          apply hlooked.store
          exact ⟨engine, query, maxResults.toNat, rfl, hquery, hne, by rw [hranked]⟩

/-! ## A chain of engines -/

theorem choose_answers {engine : Engine} (h : answers web query engine = true) (times : Times)
    {maxResults : Int} (hmax : 1 ≤ maxResults) (rest : List Engine) (errs : List Str)
    (cache : ResultCache) :
    (choose web times query maxResults (engine :: rest) errs cache).1 =
      (some
        { ok := true
          rows := (TimedCache.live cache (cacheKey engine query) (times.lookupAt engine)).getD
            ((ranked web query engine).take maxResults.toNat)
          engine := engine }, errs) := by
  have hsearch := search_answers h times hmax cache
  rw [choose]
  simp only [hsearch, if_true]

/-- With the entries of a cache that holds cuts, a chain gives what it gives with an empty cache
when the entry of the first engine with results is the cut that is asked for. -/
theorem choose_eq_iff (hcache : TimedCache.Holds cache (Cut web)) (query : Str) (times : Times)
    {maxResults : Int} (hmax : 1 ≤ maxResults) (chain : List Engine) (errs : List Str) :
    (choose web times query maxResults chain errs cache).1 =
        (choose web times query maxResults chain errs OrderedMap.empty).1 ↔
      ∀ engine ∈ chain.find? (answers web query), ∀ rows,
        TimedCache.live cache (cacheKey engine query) (times.lookupAt engine) = some rows →
          rows.length = min maxResults.toNat (ranked web query engine).length := by
  induction chain generalizing errs with
  | nil => simp [choose]
  | cons engine rest ih =>
      cases hengine : answers web query engine with
      | false =>
          -- nothing is ever stored for this engine, so both go on with the caches they have
          obtain ⟨errMsg, hfails⟩ := search_fails hengine times maxResults
          rw [List.find?_cons_of_neg (by simp [hengine]), choose, choose, hfails cache hcache,
            hfails _ TimedCache.holds_empty]
          exact ih _
      | true =>
          rw [List.find?_cons_of_pos hengine, choose_answers hengine times hmax,
            choose_answers hengine times hmax, TimedCache.live_empty]
          cases hlive : TimedCache.live cache (cacheKey engine query) (times.lookupAt engine) with
          | none => simp [hlive]
          | some rows =>
              obtain ⟨-, -, m, rfl⟩ := cut_live hcache hlive
              simp [hlive, List.take_eq_take_iff]

theorem choose_holds (hcache : TimedCache.Holds cache (Cut web)) (hquery : query ≠ [])
    (times : Times) (maxResults : Int) (chain : List Engine) (errs : List Str) :
    TimedCache.Holds (choose web times query maxResults chain errs cache).2 (Cut web) := by
  induction chain generalizing errs cache with
  | nil => exact hcache
  | cons engine rest ih =>
      have hsearch := search_holds engine times maxResults hcache hquery
      rw [choose]
      simp only
      split
      · exact hsearch
      · exact ih hsearch _

/-- A chain with an empty cache gives no more rows than are asked for. -/
theorem choose_rows_le (web : Web) (query : Str) (times : Times) {maxResults : Int} (hmax : 1 ≤ maxResults)
    (chain : List Engine) (errs : List Str) :
    ∀ outcome ∈ (choose web times query maxResults chain errs OrderedMap.empty).1.1,
      (outcome.rows.length : Int) ≤ maxResults := by
  induction chain generalizing errs with
  | nil => simp [choose]
  | cons engine rest ih =>
      cases hengine : answers web query engine with
      | false =>
          obtain ⟨errMsg, hfails⟩ := search_fails hengine times maxResults
          rw [choose, hfails _ TimedCache.holds_empty]
          exact ih _
      | true =>
          rw [choose_answers hengine times hmax, TimedCache.live_empty]
          simp
          omega

end Search

/-! ## A run of searches -/

theorem one_le_clampResults (maxResults : Int) : 1 ≤ clampResults maxResults := by
  unfold clampResults
  grind

theorem search_keeps_cuts {web : Web} {cache : ResultCache}
    (hcache : TimedCache.Holds cache (Cut web)) (request : Request) (times : Times) :
    TimedCache.Holds (search web times cache request).2 (Cut web) := by
  unfold search
  simp only
  split
  · exact hcache
  · rename_i hquery
    exact choose_holds hcache hquery times _ _ _

theorem run_cuts {web : Web} {cache : ResultCache}
    (h : Run (step web) AnyStep OrderedMap.empty cache) : TimedCache.Holds cache (Cut web) := by
  apply h.invariant (motive := fun cache => TimedCache.Holds cache (Cut web))
  · exact TimedCache.holds_empty
  · intro cache call cache' hcache _ hstep
    cases hstep
    exact search_keeps_cuts hcache call.1 call.2

theorem search_fst {request : Request} (h : trimStr request.query ≠ []) (web : Web) (times : Times)
    (cache : ResultCache) :
    let found := (choose web times (trimStr request.query) (clampResults request.maxResults)
      (engines (trimStr request.query)) [] cache).1
    (search web times cache request).1 = .searched (trimStr request.query) found.1 found.2 := by
  simp only [search, h, if_false]

/-- After any calls, a call is answered as with an empty cache when the rows that are found for
it are as many as it asks for. -/
theorem search_transparent_iff {web : Web} {cache : ResultCache}
    (h : Run (step web) AnyStep OrderedMap.empty cache) (request : Request) (times : Times) :
    Transparent web cache request times ↔ SameCut web cache request times := by
  have hcache := run_cuts h
  have hmax := one_le_clampResults request.maxResults
  by_cases hquery : trimStr request.query = []
  · have hempty : ∀ cache, (search web times cache request).1 = .noQuery := by
      intro cache
      simp only [search, hquery, if_true]
    constructor
    · intro _ engine _ rows hlive
      exact absurd hquery (cut_live hcache hlive).1
    · intro _
      refine ⟨by rw [hempty, hempty], ?_⟩
      rw [hempty]
      simp [Found.rows]
      omega
  · have hchoose := choose_eq_iff hcache (trimStr request.query) times hmax
      (engines (trimStr request.query)) []
    rw [Transparent, search_fst hquery, search_fst hquery, SameCut, ← hchoose, Found.searched.injEq]
    constructor
    · intro htransparent
      exact Prod.ext htransparent.1.2.1 htransparent.1.2.2
    · intro hsame
      have hle := choose_rows_le web (trimStr request.query) times hmax
        (engines (trimStr request.query)) []
      simp only [hsame, true_and]
      cases hchosen : (choose web times (trimStr request.query) (clampResults request.maxResults)
          (engines (trimStr request.query)) [] OrderedMap.empty).1.1 with
      | none =>
          simp [Found.rows]
          omega
      | some outcome =>
          exact hle outcome hchosen

/-- Every engine finds the same three pages. -/
def threePages : Web := fun _ _ =>
  .ok
    [⟨lit "One", lit "https://a.org", []⟩, ⟨lit "Two", lit "https://b.org", []⟩,
      ⟨lit "Three", lit "https://c.org", lit "third"⟩]

def atOnce : Times where
  lookupAt _ := 0
  storeAt _ := 0

/-- The cache after one call that asks for two pages. -/
def afterTwo : ResultCache := (search threePages atOnce OrderedMap.empty ⟨lit "lean", 2⟩).2

theorem afterTwo_run : Run (step threePages) AnyStep OrderedMap.empty afterTwo :=
  .next (e := (⟨lit "lean", 2⟩, atOnce)) .start trivial rfl

/-- The two pages are all that a call for three gets, and one more than a call for one asks for. -/
theorem search_cached_cut :
    Run (step threePages) AnyStep OrderedMap.empty afterTwo ∧
      ¬ Transparent threePages afterTwo ⟨lit "lean", 3⟩ atOnce ∧
      ¬ Transparent threePages afterTwo ⟨lit "lean", 1⟩ atOnce := by
  refine ⟨afterTwo_run, fun hthree => ?_, fun hone => ?_⟩
  · have hrows := hthree.1
    revert hrows
    decide
  · have hlength := hone.2
    revert hlength
    decide

/-- The same call again. -/
theorem search_transparent_again : Transparent threePages afterTwo ⟨lit "lean", 2⟩ atOnce := by
  rw [search_transparent_iff afterTwo_run]
  intro engine hengine rows hlive
  obtain rfl : Engine.duckDuckGo = engine := Option.some.inj hengine
  obtain rfl := Option.some.inj hlive
  decide

end JiuwenCore.Tools.WebSearchTool
