import TrialBoard.Gateway.Server
import TrialBoard.Proofs.LiveView
import TrialBoard.Proofs.PercentText
import TrialBoard.Store.Memory

/-!
# The two questions over HTTP

The two questions are asked at the root and under `/api`, where an id is one segment of the path,
percent-encoded in any way. Whatever becomes of a question, the status is 200, and the envelope tells
three things apart: the data, that there is no such experiment, which is data too and is null, and
the error, with which there are no data.

A store in memory answers unless it is unavailable or told to fail on a collection that the question
reads. The collections of what belongs to an experiment are read only if the experiment is there, so
until then their faults are not seen. A request leaves the server as it was, with all its rows and
feeds, and the session it took is closed.
-/

namespace TrialBoard

open Document (hasId)

/-! ## Stores that may fail -/

namespace MemoryStore

/-- Why a question is not answered that reads collections one after the other. -/
def fault? (s : MemoryStore) (collections : List Collection) : Option StoreError :=
  if s.faults.unavailable then some (.unavailable "connection refused")
  else (collections.find? s.faults.failingQueries.get).map
    fun c => .queryFailed c "injected query failure"

/-- The collections that the question for an experiment reads. -/
def readFor (s : MemoryStore) (id : String) : List Collection :=
  .experiments ::
    if (s.rows.get .experiments).any (hasId id) then [.transformations, .tests, .analytics] else []

/-- What is answered to a question that reads collections: its answer, unless one of them fails. -/
def answer {α : Type} (s : MemoryStore) (collections : List Collection) (value : α) :
    Except Failure α :=
  match s.fault? collections with
  | some e => .error (.error e)
  | none => .ok value

variable {s : MemoryStore}

/-- The store with one more session. -/
def opened (s : MemoryStore) : MemoryStore := { s with openSessions := s.openSessions + 1 }

/-- A session changes nothing but the count, and that only until it is closed. -/
theorem inSession_eq {α : Type} (s : MemoryStore) (ask : MemoryStore → Except StoreError α) :
    DocumentStore.inSession s ask =
      (if s.faults.unavailable then .error (.error (.unavailable "connection refused"))
        else (ask s.opened).mapError .error, s) := by
  have hopen : DocumentStore.openSession s = if s.faults.unavailable then
      .error (.error (.unavailable "connection refused")) else .ok s.opened := rfl
  unfold DocumentStore.inSession
  rw [hopen]
  cases s.faults.unavailable with
  | true => rfl
  | false => cases hask : ask s.opened <;> simp only [Bool.false_eq_true, if_false, hask] <;> rfl

section

variable (h : s.faults.unavailable = false)
include h

/-- A query in a session, which is open. -/
theorem query_opened {α : Type} (c : Collection) (value : α) :
    s.opened.query c value =
      if s.faults.failingQueries.get c then .error (.queryFailed c "injected query failure")
      else .ok value := by
  change (if s.faults.unavailable then _ else _) = _
  rw [h]
  rfl

theorem filterEq_opened (c : Collection) (id : String) :
    s.opened.filterEq c Document.experimentKey (.string id) =
      if s.faults.failingQueries.get c then .error (.queryFailed c "injected query failure")
      else .ok (belonging s.rows id c) := by
  rw [filterEq, query_opened h]
  have hrows : (s.rows.get c).filter (·.hasAt Document.experimentKey (.string id)) =
      belonging s.rows id c :=
    List.filter_congr fun row _ => row.hasAt_string Document.experimentKey id
  exact hrows ▸ rfl

theorem fault?_nil : s.fault? [] = none := by
  rw [fault?, h]
  rfl

/-- The first collection that fails decides. -/
theorem fault?_cons (c : Collection) (collections : List Collection) :
    s.fault? (c :: collections) =
      if s.faults.failingQueries.get c then some (.queryFailed c "injected query failure")
      else s.fault? collections := by
  unfold fault?
  rw [h, List.find?_cons]
  cases s.faults.failingQueries.get c <;> rfl

end

theorem answer_of_unavailable {α : Type} (h : s.faults.unavailable = true)
    (collections : List Collection) (value : α) :
    s.answer collections value = .error (.error (.unavailable "connection refused")) := by
  unfold answer fault?
  rw [h]
  rfl

theorem list_eq (s : MemoryStore) :
    Query.list s = (s.answer [.experiments] (s.rows.get .experiments), s) := by
  rw [Query.list, inSession_eq]
  cases h : s.faults.unavailable with
  | true => rw [answer_of_unavailable h, if_pos rfl]
  | false =>
    have hscan : DocumentStore.scan s.opened .experiments = _ := query_opened h _ _
    rw [hscan, answer, fault?_cons h, fault?_nil h]
    cases s.faults.failingQueries.get .experiments <;> rfl

/-- The joined detail in a session. What belongs to an experiment is read only if it is there. -/
theorem join_opened (h : s.faults.unavailable = false) (id : String) :
    (Query.join (s.opened.get .experiments id) fun c =>
        s.opened.filterEq c Document.experimentKey (.string id)).mapError .error =
      s.answer (s.readFor id) (Detail.among? s.rows id) := by
  have hget : s.opened.get .experiments id =
      if s.faults.failingQueries.get .experiments then
        .error (.queryFailed .experiments "injected query failure")
      else .ok ((s.rows.get .experiments).find? (hasId id)) := query_opened h _ _
  rw [hget, answer, readFor, fault?_cons h, ← List.isSome_find?, Detail.among?]
  simp only [filterEq_opened h]
  cases s.faults.failingQueries.get .experiments with
  | true => rfl
  | false =>
    cases (s.rows.get .experiments).find? (hasId id) with
    | none =>
      simp only [Option.isSome_none, Bool.false_eq_true, if_false, fault?_nil h]
      rfl
    | some experiment =>
      simp only [Option.isSome_some, Bool.false_eq_true, if_true, if_false, fault?_cons h,
        fault?_nil h, Query.join]
      cases s.faults.failingQueries.get .transformations with
      | true => rfl
      | false =>
        cases s.faults.failingQueries.get .tests with
        | true => rfl
        | false => cases s.faults.failingQueries.get .analytics <;> rfl

theorem detail_eq (s : MemoryStore) (id : String) :
    Query.detail s id = (s.answer (s.readFor id) (Detail.among? s.rows id), s) := by
  rw [Query.detail, inSession_eq]
  cases h : s.faults.unavailable with
  | true => rw [answer_of_unavailable h, if_pos rfl]
  | false => exact congrArg (·, s) (join_opened h id)

end MemoryStore

namespace Gateway

/-! ## Addresses -/

/-- Whether a text has neither of the marks that end a path. -/
def IsUnmarked (s : String) : Prop := '?' ∉ s.toList ∧ '#' ∉ s.toList

theorem IsUnmarked.append {a b : String} (ha : IsUnmarked a) (hb : IsUnmarked b) :
    IsUnmarked (a ++ b) := by
  unfold IsUnmarked
  rw [String.toList_append, List.mem_append, List.mem_append]
  exact ⟨not_or.2 ⟨ha.1, hb.1⟩, not_or.2 ⟨ha.2, hb.2⟩⟩

namespace Request

theorem cutAt_of_notMem {mark : Char} {cs : List Char} (h : mark ∉ cs) :
    cutAt mark cs = (cs, none) := by
  have hall : ∀ c ∈ cs, (c != mark) = true := fun c hc =>
    bne_iff_ne.2 fun heq => h (heq ▸ hc)
  rw [cutAt, List.dropWhile_eq_nil_iff.2 hall]

/-- An address without marks is a path. -/
theorem ofAddress_of_isUnmarked {address : String} (h : IsUnmarked address) (method : String)
    (headers : List (String × String)) :
    ofAddress method address headers = { method, path := address, headers } := by
  rw [ofAddress, cutAt_of_notMem h.2]
  dsimp only
  rw [cutAt_of_notMem h.1]
  simp only [String.ofList_toList, Option.map_none]

end Request

theorem segments_of_notMem {cs : List Char} (h : '/' ∉ cs) : segments cs = [cs] := by
  induction cs with
  | nil => rfl
  | cons c cs ih =>
    obtain ⟨hc, hcs⟩ := not_or.1 (h ∘ List.mem_cons.2)
    rw [segments, if_neg (Ne.symm hc), ih hcs]

theorem segments_append {cs : List Char} (h : '/' ∉ cs) (rest : List Char) :
    segments (cs ++ '/' :: rest) = cs :: segments rest := by
  induction cs with
  | nil => rfl
  | cons c cs ih =>
    obtain ⟨hc, hcs⟩ := not_or.1 (h ∘ List.mem_cons.2)
    rw [List.cons_append, segments, if_neg (Ne.symm hc), ih hcs]

/-- Where the two questions are asked. -/
def mounts : List String := ["", "/api"]

theorem eq_of_mem_mounts {base : String} (h : base ∈ mounts) : base = "" ∨ base = "/api" := by
  simpa [mounts] using h

theorem isUnmarked_mount {base : String} (h : base ∈ mounts) : IsUnmarked base := by
  rcases eq_of_mem_mounts h with rfl | rfl <;> exact ⟨by decide, by decide⟩

namespace Route

variable {base : String} (hbase : base ∈ mounts)
include hbase

theorem ofPath_experiments : ofPath (base ++ "/experiments") = .experiments := by
  rcases eq_of_mem_mounts hbase with rfl | rfl <;> decide

theorem ofPath_experiment {segment : String} (hsegment : segment ≠ "")
    (hslash : '/' ∉ segment.toList) :
    ofPath (base ++ "/experiments/" ++ segment) = .experiment segment := by
  have hempty : segment.isEmpty = false := Bool.eq_false_iff.2 fun h =>
    hsegment (String.isEmpty_iff.1 h)
  have hbelow : segments ("experiments".toList ++ '/' :: segment.toList) =
      ["experiments".toList, segment.toList] := by
    rw [segments_append (by decide), segments_of_notMem hslash]
  have hpath : (base ++ "/experiments/" ++ segment).toList =
      base.toList ++ '/' :: ("experiments".toList ++ '/' :: segment.toList) := by
    have hmiddle : "/experiments/".toList = '/' :: ("experiments".toList ++ ['/']) := by decide
    rw [String.toList_append, String.toList_append, hmiddle]
    simp
  rw [ofPath, hpath]
  rcases eq_of_mem_mounts hbase with rfl | rfl
  · have hsegments : segments ([] ++ '/' :: ("experiments".toList ++ '/' :: segment.toList)) =
        [[], "experiments".toList, segment.toList] := by
      rw [segments_append (by decide), hbelow]
    change ofSegments (List.map String.ofList (segments ([] ++ _))) = _
    rw [hsegments]
    simp [ofSegments, ofQuestion, hempty]
  · have hsegments : segments ([] ++ '/' :: ("api".toList ++
          '/' :: ("experiments".toList ++ '/' :: segment.toList))) =
        [[], "api".toList, "experiments".toList, segment.toList] := by
      rw [segments_append (by decide), segments_append (by decide), hbelow]
    change ofSegments (List.map String.ofList (segments ([] ++ '/' :: ("api".toList ++ _)))) = _
    rw [hsegments]
    simp [ofSegments, ofQuestion, hempty]

end Route

/-- The data of the question for an experiment: null if it is not there, and otherwise its own
members and the rows that belong to it. -/
def detailData (rows : ByCollection (List Document)) (id : String) : Json :=
  match (rows.get .experiments).find? (hasId id) with
  | none => .null
  | some experiment =>
    .object (experiment ++
      [ ("transformations", Detail.rowsToJson (belonging rows id .transformations)),
        ("tests", Detail.rowsToJson (belonging rows id .tests)),
        ("analytics", Detail.rowsToJson (belonging rows id .analytics)) ])

theorem detailData_eq (rows : ByCollection (List Document)) (id : String) :
    ((Detail.among? rows id).map Detail.toJson).getD .null = detailData rows id := by
  unfold Detail.among? detailData
  cases (rows.get .experiments).find? (hasId id) <;> rfl

/-- What a question is answered: the error, if the store fails, and otherwise the data. -/
def envelopeOf (fault? : Option StoreError) (data : Json) : Json :=
  match fault? with
  | some e => .object [("responseCode", .ofNat 1), ("responseDesc", .string e.message)]
  | none =>
    .object [("responseCode", .ofNat 0), ("responseDesc", .string "Success"), ("data", data)]

namespace Server

theorem respond_answer {α : Type} (encode : α → Json) (s : MemoryStore)
    (collections : List Collection) (value : α) :
    respond encode (s.answer collections value) =
      .json 200 (envelopeOf (s.fault? collections) (encode value)) := by
  unfold MemoryStore.answer
  cases s.fault? collections <;> rfl

theorem listExperiments_eq (server : Server MemoryStore) :
    server.listExperiments =
      (.json 200 (envelopeOf (server.store.fault? [.experiments])
        (Detail.rowsToJson (server.store.rows.get .experiments))), server) := by
  rw [listExperiments, MemoryStore.list_eq]
  exact congrArg (·, server) (respond_answer _ _ _ _)

theorem showExperiment_eq (server : Server MemoryStore) (id : String) :
    server.showExperiment id =
      (.json 200 (envelopeOf (server.store.fault? (server.store.readFor id))
        (detailData server.store.rows id)), server) := by
  rw [showExperiment, MemoryStore.detail_eq, ← detailData_eq]
  exact congrArg (·, server) (respond_answer _ _ _ _)

/-- A request that is served leaves the server as it was. -/
theorem serve_snd (server : Server MemoryStore) (now : Nat) (request : Request) :
    (server.serve now request).2 = server := by
  unfold serve
  split
  · rw [listExperiments_eq]
  · split
    · rw [showExperiment_eq]
    · rfl
  all_goals rfl

theorem route_snd (server : Server MemoryStore) (now : Nat) (request : Request) :
    (server.route now request).2 = server := by
  unfold route
  split
  · exact serve_snd server now request
  · exact serve_snd server now request
  · split <;> rfl

/-- So does every other request. -/
theorem handle_snd (server : Server MemoryStore) (now : Nat) (request : Request) :
    (server.handle now request).2 = server := by
  unfold handle
  split
  · rfl
  · exact route_snd server now request

/-- What an address without marks is answered. -/
theorem handle_get (server : Server MemoryStore) (now : Nat) (headers : List (String × String))
    {path : String} (h : IsUnmarked path) :
    server.handle now (.ofAddress "GET" path headers) =
      ((server.serve now { path, headers }).1.shared, server) := by
  have hkept := serve_snd server now { path, headers }
  have hroute : server.route now { path, headers } = server.serve now { path, headers } := rfl
  have hmethod : "GET" ≠ "OPTIONS" := by decide
  rw [Request.ofAddress_of_isUnmarked h, handle, if_neg hmethod, hroute]
  exact Prod.ext rfl hkept

variable {base : String} (hbase : base ∈ mounts)
include hbase

theorem handle_experiments (server : Server MemoryStore) (now : Nat)
    (headers : List (String × String)) :
    server.handle now (.ofAddress "GET" (base ++ "/experiments") headers) =
      ((Response.json 200 (envelopeOf (server.store.fault? [.experiments])
        (Detail.rowsToJson (server.store.rows.get .experiments)))).shared, server) := by
  have hunmarked : IsUnmarked (base ++ "/experiments") :=
    (isUnmarked_mount hbase).append ⟨by decide, by decide⟩
  rw [handle_get server now headers hunmarked, serve, Route.ofPath_experiments hbase]
  dsimp only
  rw [listExperiments_eq]

theorem handle_experiment (server : Server MemoryStore) (now : Nat)
    (headers : List (String × String)) {id segment : String} (hid : id ≠ "")
    (hsegment : Text.IsSegmentFor segment id) :
    server.handle now (.ofAddress "GET" (base ++ "/experiments/" ++ segment) headers) =
      ((Response.json 200 (envelopeOf (server.store.fault? (server.store.readFor id))
        (detailData server.store.rows id))).shared, server) := by
  have hunmarked : IsUnmarked (base ++ "/experiments/" ++ segment) :=
    ((isUnmarked_mount hbase).append ⟨by decide, by decide⟩).append
      ⟨fun h => (hsegment.unmarked _ h).2.1 rfl, fun h => (hsegment.unmarked _ h).2.2 rfl⟩
  have hslash : '/' ∉ segment.toList := fun h => (hsegment.unmarked _ h).1 rfl
  rw [handle_get server now headers hunmarked, serve,
    Route.ofPath_experiment hbase (hsegment.ne_empty hid) hslash]
  dsimp only
  rw [hsegment.decoded]
  dsimp only
  rw [showExperiment_eq]

end Server

/-- The two questions are answered in the same way at the root and under `/api`, by what the store
has for the id that a segment stands for, and no request leaves a trace. -/
theorem questions_answered (server : Server MemoryStore) (now : Nat) :
    (∀ base ∈ mounts, ∀ headers,
      server.handle now (.ofAddress "GET" (base ++ "/experiments") headers) =
        ((Response.json 200 (envelopeOf (server.store.fault? [.experiments])
          (Detail.rowsToJson (server.store.rows.get .experiments)))).shared, server) ∧
      ∀ id segment, id ≠ "" → Text.IsSegmentFor segment id →
        server.handle now (.ofAddress "GET" (base ++ "/experiments/" ++ segment) headers) =
          ((Response.json 200 (envelopeOf (server.store.fault? (server.store.readFor id))
            (detailData server.store.rows id))).shared, server)) ∧
    (∀ keep, Text.IsForSegments keep → ∀ id, Text.IsSegmentFor (Text.percentEncode keep id) id) ∧
    ∀ request, (server.handle now request).2 = server := by
  refine ⟨fun base hbase headers => ⟨?_, fun id segment hid hsegment => ?_⟩, ?_, ?_⟩
  · exact Server.handle_experiments hbase server now headers
  · exact Server.handle_experiment hbase server now headers hid hsegment
  · exact fun keep hkeep id => Text.isSegmentFor_percentEncode hkeep id
  · exact Server.handle_snd server now

/-- An experiment whose id has a slash. -/
theorem experiment_with_slash_found :
    let server : Server MemoryStore :=
      { store := { rows := { ByCollection.ofFn (fun _ => []) with
          experiments := [[("id", .string "a/b")]] } }
        registry := { limit := 1 }
        feedBuffer := 1 }
    Text.percentEncode Text.isUnreserved "a/b" = "a%2Fb" ∧
    server.handle 0 (.ofAddress "GET" ("/api" ++ "/experiments/" ++ "a%2Fb") []) =
      ((Response.json 200 (.object
        [ ("responseCode", .ofNat 0), ("responseDesc", .string "Success"),
          ("data", .object
            [ ("id", .string "a/b"), ("transformations", .array []), ("tests", .array []),
              ("analytics", .array []) ]) ])).shared, server) := by
  intro server
  have hencoded : Text.percentEncode Text.isUnreserved "a/b" = "a%2Fb" := by
    have hbytes : "a/b".toUTF8.toList = [97, 47, 98] := Text.toList_toUTF8_ofList ['a', '/', 'b']
    rw [Text.percentEncode, hbytes]
    decide
  obtain ⟨hquestions, hsegments, -⟩ := questions_answered server 0
  have hsegment := hsegments Text.isUnreserved Text.isForSegments_isUnreserved "a/b"
  rw [hencoded] at hsegment
  obtain ⟨-, hdetail⟩ := hquestions "/api" (by decide) []
  exact ⟨hencoded, (hdetail "a/b" "a%2Fb" (by decide) hsegment).trans rfl⟩

end Gateway

end TrialBoard
