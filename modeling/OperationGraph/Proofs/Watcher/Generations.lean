import OperationGraph.Watcher

/-! # Generations of a schema that follows its files

However the files of a watcher change between its reloads, the schema in force is the one that was loaded
last with success, its generation counts the loads that succeeded, and each reload publishes one event
that says so (`Watcher.course_of_start`). What each reload finds is stated without the watcher, as a list
of results, and one turn after the other the watcher is kept in line with that list. -/

namespace OperationGraph

def Event.generation? : Event → Option Nat
  | schemaReloaded _ generation _ => some generation
  | _ => none

namespace Watcher

/-- What happens around a watcher: its files change in any way, or it is told to load them again. -/
inductive Turn where
  | edit (d : Directory)
  | reload

/-- A watcher among files, what it has published, and what its reloads have returned. -/
structure Course where
  watcher : Watcher
  directory : Directory
  published : List Event := []
  returned : List (Option FilesError) := []

abbrev Loaded := Except FilesError Schema

def Loaded.error? : Loaded → Option FilesError
  | .error e => some e
  | .ok _ => none

def Loaded.successes (results : List Loaded) : List Schema := results.filterMap Except.toOption

theorem Loaded.length_successes (results : List Loaded) :
    (successes results).length = ((results.map error?).map Option.isSome).count false := by
  induction results with
  | nil => rfl
  | cons r rest ih =>
    cases r with
    | error e =>
      change (successes rest).length = _
      simp [ih, error?]
    | ok s =>
      change (s :: successes rest).length = _
      simp [ih, error?]

def loads (paths : List String) : Directory → List Turn → List Loaded
  | _, [] => []
  | _, .edit d :: rest => loads paths d rest
  | d, .reload :: rest => Schema.loadFiles d paths :: loads paths d rest

/-- What a reload announces: the generation in force after all results so far, of which its own is the
last, and the text of its error. -/
def announcement (paths : List String) (results : List Loaded) (r : Loaded) : Event :=
  .schemaReloaded paths (1 + (Loaded.successes results).length)
    ((Loaded.error? r).map FilesError.text)

namespace Course

def turn (c : Course) : Turn → Course
  | .edit d => { c with directory := d }
  | .reload =>
    let (watcher, event, error) := c.watcher.reload c.directory
    { c with watcher, published := c.published ++ [event], returned := c.returned ++ [error] }

def turns (c : Course) (ts : List Turn) : Course := ts.foldl turn c

/-- A course is in line with the first schema and the results of the reloads since. -/
structure InLine (c : Course) (paths : List String) (first : Schema) (results : List Loaded) :
    Prop where
  paths_eq : c.watcher.paths = paths
  schema_eq : c.watcher.schema = (Loaded.successes results).getLastD first
  generation_eq : c.watcher.generation = 1 + (Loaded.successes results).length
  returned_eq : c.returned = results.map Loaded.error?
  length_published : c.published.length = results.length
  published_eq : ∀ k r, results[k]? = some r →
    c.published[k]? = some (announcement paths (results.take (k + 1)) r)

/-- Results and announcements grow together. -/
theorem getElem?_published_concat {paths : List String} {results : List Loaded} {events : List Event}
    (hlength : events.length = results.length)
    (h : ∀ k r, results[k]? = some r →
      events[k]? = some (announcement paths (results.take (k + 1)) r)) (x : Loaded) :
    ∀ k r, (results ++ [x])[k]? = some r → (events ++ [announcement paths (results ++ [x]) x])[k]? =
      some (announcement paths ((results ++ [x]).take (k + 1)) r) := by
  intro k r hr
  by_cases hk : k < results.length
  · rw [List.getElem?_append_left hk] at hr
    rw [List.getElem?_append_left (hlength ▸ hk), List.take_append_of_le_length hk]
    exact h k r hr
  · have hlast : k = results.length := by
      have hbound := (List.getElem?_eq_some_iff.1 hr).1
      simp only [List.length_append, List.length_cons, List.length_nil] at hbound
      omega
    subst hlast
    obtain rfl : x = r := by simpa using hr
    rw [← hlength, List.getElem?_concat_length, hlength, List.take_of_length_le (by simp)]

/-- A reload that fails leaves the watcher as it was. -/
theorem turn_reload_of_error {c : Course} {e : FilesError}
    (h : Schema.loadFiles c.directory c.watcher.paths = .error e) :
    c.turn .reload = { c with
      published := c.published ++
        [.schemaReloaded c.watcher.paths c.watcher.generation (some e.text)]
      returned := c.returned ++ [some e] } := by
  simp [turn, Watcher.reload, h]

theorem turn_reload_of_ok {c : Course} {s : Schema}
    (h : Schema.loadFiles c.directory c.watcher.paths = .ok s) :
    c.turn .reload = { c with
      watcher := { c.watcher with schema := s, generation := c.watcher.generation + 1 }
      published := c.published ++
        [.schemaReloaded c.watcher.paths (c.watcher.generation + 1) none]
      returned := c.returned ++ [none] } := by
  simp [turn, Watcher.reload, h]

/-- A reload adds what loading gives to the results. -/
theorem InLine.reload {c : Course} {paths : List String} {first : Schema} {results : List Loaded}
    (h : c.InLine paths first results) :
    (c.turn .reload).InLine paths first (results ++ [Schema.loadFiles c.directory paths]) := by
  obtain ⟨rfl, hschema, hgeneration, hreturned, hlength, hpublished⟩ := h
  have hconcat := getElem?_published_concat hlength hpublished
    (Schema.loadFiles c.directory c.watcher.paths)
  cases hload : Schema.loadFiles c.directory c.watcher.paths with
  | error e =>
    have hsame : Loaded.successes (results ++ [.error e]) = Loaded.successes results := by
      simp [Loaded.successes, Except.toOption]
    rw [turn_reload_of_error hload]
    rw [hload] at hconcat
    refine ⟨rfl, by rw [hsame, hschema], by rw [hsame, hgeneration], ?_, by simp [hlength], ?_⟩
    · simp [hreturned, Loaded.error?]
    · simpa [announcement, hsame, hgeneration, Loaded.error?] using hconcat
  | ok s =>
    have hmore : Loaded.successes (results ++ [.ok s]) = Loaded.successes results ++ [s] := by
      simp [Loaded.successes, Except.toOption]
    rw [turn_reload_of_ok hload]
    rw [hload] at hconcat
    refine ⟨rfl, by simp [hmore], ?_, ?_, by simp [hlength], ?_⟩
    · simp only [hmore, hgeneration, List.length_append, List.length_cons, List.length_nil]
      omega
    · simp [hreturned, Loaded.error?]
    · simpa [announcement, hmore, hgeneration, Loaded.error?, Nat.add_assoc] using hconcat

/-- Whatever happens, a course stays in line with what the reloads find. -/
theorem InLine.turns {c : Course} {paths : List String} {first : Schema} {results : List Loaded}
    (h : c.InLine paths first results) (ts : List Turn) :
    (c.turns ts).InLine paths first (results ++ loads paths c.directory ts) := by
  induction ts generalizing c results with
  | nil => simpa [loads, Course.turns] using h
  | cons t rest ih =>
    cases t with
    | edit d =>
      obtain ⟨hpaths, hschema, hgeneration, hreturned, hlength, hpublished⟩ := h
      exact ih (c := c.turn (.edit d))
        ⟨hpaths, hschema, hgeneration, hreturned, hlength, hpublished⟩
    | reload =>
      have hrest := ih h.reload
      rw [List.append_assoc] at hrest
      have hdirectory : (c.turn .reload).directory = c.directory := rfl
      rwa [hdirectory] at hrest

theorem length_successes_take {results : List Loaded} {k : Nat} {r : Loaded}
    (h : results[k]? = some r) : (Loaded.successes (results.take (k + 1))).length =
      (Loaded.successes (results.take k)).length + if r.isOk then 1 else 0 := by
  rw [List.take_add_one, h, Loaded.successes, List.filterMap_append, List.length_append]
  congr 1
  cases r <;> rfl

/-- The generation before a reload is the one announced last, or the first one. -/
theorem InLine.generation_before {c : Course} {paths : List String} {first : Schema}
    {results : List Loaded} (h : c.InLine paths first results) {k : Nat} {r : Loaded}
    (hr : results[k]? = some r) : (some 1 :: c.published.map Event.generation?)[k]? =
      some (some (1 + (Loaded.successes (results.take k)).length)) := by
  cases k with
  | zero => rfl
  | succ j =>
    have hj : j < results.length := by
      have hbound := (List.getElem?_eq_some_iff.1 hr).1
      omega
    rw [List.getElem?_cons_succ, List.getElem?_map,
      h.published_eq j results[j] (List.getElem?_eq_getElem hj)]
    rfl

theorem InLine.generation_after {c : Course} {paths : List String} {first : Schema}
    {results : List Loaded} (h : c.InLine paths first results) {k : Nat} {r : Loaded}
    (hr : results[k]? = some r) : (c.published.map Event.generation?)[k]? =
      some (some (1 + (Loaded.successes (results.take k)).length + if r.isOk then 1 else 0)) := by
  rw [List.getElem?_map, h.published_eq k r hr, announcement, length_successes_take hr,
    Nat.add_assoc]
  rfl

end Course

theorem exists_of_start {d : Directory} {paths : List String} {w : Watcher}
    (h : start d paths = .ok w) :
    ∃ first, Schema.loadFiles d paths = .ok first ∧ w = { paths, schema := first } := by
  unfold start at h
  cases hfirst : Schema.loadFiles d paths with
  | error e =>
    rw [hfirst] at h
    cases h
  | ok first =>
    rw [hfirst] at h
    exact ⟨first, rfl, (Except.ok.inj h).symm⟩

/-- However files change between reloads, the schema in force is the one loaded last with success, and
its generation is one more than the number of reloads that succeeded. Each reload returns the error of
its load, and publishes one event with the generation in force after it and the text of that error. So
the generations announced grow by one exactly where a load succeeds, and a reload that fails leaves the
watcher as it was. -/
theorem course_of_start {d : Directory} {paths : List String} {w : Watcher}
    (h : start d paths = .ok w) (ts : List Turn) :
    ∃ first, Schema.loadFiles d paths = .ok first ∧
      let c := Course.turns { watcher := w, directory := d } ts
      let results := loads paths d ts
      c.watcher.schema = (Loaded.successes results).getLastD first ∧
      c.watcher.generation = 1 + (Loaded.successes results).length ∧
      c.returned = results.map Loaded.error? ∧
      c.published.length = results.length ∧
      (∀ (k : Nat) (r : Loaded), results[k]? = some r → c.published[k]? = some (.schemaReloaded paths
        (1 + (Loaded.successes (results.take (k + 1))).length)
        ((Loaded.error? r).map FilesError.text))) ∧
      (∀ (k : Nat) (r : Loaded), results[k]? = some r → ∃ generation,
        (some 1 :: c.published.map Event.generation?)[k]? = some (some generation) ∧
        (c.published.map Event.generation?)[k]? =
          some (some (if r.isOk then generation + 1 else generation))) ∧
      ∀ e, Schema.loadFiles c.directory paths = .error e →
        (c.turn .reload).watcher = c.watcher ∧ (c.turn .reload).returned = c.returned ++ [some e] := by
  obtain ⟨first, hfirst, rfl⟩ := exists_of_start h
  have hstart : Course.InLine { watcher := { paths, schema := first }, directory := d } paths first
      [] := ⟨rfl, rfl, rfl, rfl, rfl, fun k r hr => by simp at hr⟩
  have hcourse := hstart.turns ts
  rw [List.nil_append] at hcourse
  refine ⟨first, hfirst, hcourse.schema_eq, hcourse.generation_eq, hcourse.returned_eq,
    hcourse.length_published, hcourse.published_eq, fun k r hr => ?_, fun e he => ?_⟩
  · refine ⟨_, hcourse.generation_before hr, ?_⟩
    rw [hcourse.generation_after hr]
    cases r <;> rfl
  · rw [Course.turn_reload_of_error (by rw [hcourse.paths_eq, he])]
    exact ⟨rfl, rfl⟩

/-- Files with one schema, with one that names an unknown type, and with one more field. -/
def repaired : Directory × List Turn :=
  ({ files := [("s.graphql", "type Query { a: Int }")] },
   [.edit { files := [("s.graphql", "type Query { a: Nope }")] }, .reload, .edit {}, .reload,
    .edit { files := [("s.graphql", "type Query { a: Int b: Int }")] }, .reload])

/-- Two reloads fail, one on a schema that is ill-formed and one on a missing file, and the third one
makes the second generation. -/
theorem course_of_start_repaired :
    ∃ w, start repaired.1 ["s.graphql"] = .ok w ∧
      let c := Course.turns { watcher := w, directory := repaired.1 } repaired.2
      c.watcher.generation = 2 ∧ c.published.length = 3 ∧
        c.returned.map Option.isSome = [true, true, false] := by
  have hfacts : (start repaired.1 ["s.graphql"]).isOk = true ∧
      ((loads ["s.graphql"] repaired.1 repaired.2).map Loaded.error?).map Option.isSome =
        [true, true, false] := by decide +kernel
  cases hw : start repaired.1 ["s.graphql"] with
  | error e => simp [hw, Except.isOk, Except.toBool] at hfacts
  | ok w =>
    obtain ⟨first, -, -, hgeneration, hreturned, hlength, -⟩ := course_of_start hw repaired.2
    refine ⟨w, rfl, ?_, ?_, ?_⟩
    · rw [hgeneration, Loaded.length_successes, hfacts.2]
      rfl
    · rw [hlength]
      rfl
    · rw [hreturned, hfacts.2]

end Watcher

end OperationGraph
