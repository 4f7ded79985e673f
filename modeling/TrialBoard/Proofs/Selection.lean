import TrialBoard.Proofs.Extraction

/-!
# Selecting rows by any key

A key is put between the quotes of a path as it is. A key without quotes, backslashes and null
characters names the member that is written with it, so the database looks where the row has its
value (`Extract.searches_render`), and a selection is answered with just the rows that have it.

With any other key the first step of the path is cut short at the quote or at the null character, or
means other characters than it is written with: the database has then no member by the label of the
key itself. It refuses the path, or passes over a row that has the key.
-/

namespace TrialBoard

open Json (Members Lenient written seenMembers)

/-! ## Bodies that were written as documents -/

namespace Database

theorem mem_createTable {db db' : Database} {name : String} (h : db.createTable name = .ok db')
    {t : Table} (ht : t ∈ db'.tables) : t ∈ db.tables ∨ t.rows = [] := by
  unfold createTable at h
  split at h
  · cases h
  · split at h
    · obtain rfl := Except.ok.inj h
      exact .inl ht
    · split at h
      · cases h
      · obtain rfl := Except.ok.inj h
        rcases List.mem_append.1 ht with ht | ht
        · exact .inl ht
        · rw [List.mem_singleton.1 ht]
          exact .inr rfl

theorem mem_createTables (db : Database) (names : List String) {t : Table}
    (ht : t ∈ (db.createTables names).2.tables) : t ∈ db.tables ∨ t.rows = [] := by
  induction names generalizing db with
  | nil => exact .inl ht
  | cons name names ih =>
    rw [createTables] at ht
    split at ht
    · rename_i db' hcreate
      rcases ih db' ht with ht | hrows
      · exact mem_createTable hcreate ht
      · exact .inr hrows
    · exact .inl ht

/-- A preparation adds no table with rows. -/
theorem mem_ensure (db : Database) (names : CollectionNames) {t : Table}
    (ht : t ∈ (db.ensure names).2.tables) : t ∈ db.tables ∨ t.rows = [] := by
  have hcreated := db.mem_createTables names.toList (t := t)
  unfold ensure at ht
  split at ht
  · rename_i created hcreate
    rw [hcreate] at hcreated
    refine hcreated ?_
    unfold createLog at ht
    split at ht <;> exact ht
  · exact hcreated ht

end Database

theorem Table.mem_put {t : Table} {row r : Row} (h : r ∈ (t.put row).rows) :
    r = row ∨ r ∈ t.rows := by
  rcases t.put_cases row with ⟨-, hput⟩ | ⟨-, -, ⟨-, hput⟩ | ⟨-, hput⟩⟩ <;> rw [hput] at h
  · rcases List.mem_append.1 h with h | h
    · exact .inr h
    · exact .inl (List.mem_singleton.1 h)
  · exact .inr h
  · exact mem_replaceRow h

namespace TableStore

/-- Whether every body of a store is the text of a document, and readers take it. -/
def HoldsTexts (s : TableStore) : Prop :=
  ∀ t ∈ s.database.tables, ∀ row ∈ t.rows,
    ∃ doc : Document, doc.Parses ∧ row.body = (Json.object doc).render

variable {s s' : TableStore} {c : Collection} {key : String} {value : Json}

theorem holdsTexts_ensure (h : s.HoldsTexts) : s.ensure.2.HoldsTexts := by
  have htables : s.ensure.2.database.tables = (s.database.ensure s.names).2.tables := by
    unfold ensure
    split <;> rename_i hensure <;> rw [hensure]
  intro t ht row hrow
  rw [htables] at ht
  rcases s.database.mem_ensure s.names ht with ht | hempty
  · exact h t ht row hrow
  · rw [hempty] at hrow
    exact absurd hrow List.not_mem_nil

theorem holdsTexts_write {w : Write} (h : s.HoldsTexts) (hdoc : w.doc.Parses)
    (hwrite : s.write w = .ok s') : s'.HoldsTexts := by
  obtain ⟨t, log, ht, -, rfl⟩ := exists_written hwrite
  have hold : t ∈ s.database.tables := List.mem_of_find?_eq_some ht
  intro t' ht' row hrow
  obtain ⟨other, hother, rfl⟩ := List.mem_map.1 ht'
  split at hrow
  · rcases Table.mem_put hrow with rfl | hrow
    · exact ⟨w.row, w.parses_row hdoc, rfl⟩
    · exact h t hold row hrow
  · exact h other hother row hrow

theorem holdsTexts_perform {command : Command} (h : s.HoldsTexts)
    (hdoc : ∀ w, command = .write w → w.doc.Parses) : (s.perform command).HoldsTexts := by
  cases command with
  | ensure => exact holdsTexts_ensure h
  | write w =>
    rw [perform]
    split
    · rename_i s' hwrite
      exact holdsTexts_write h (hdoc w rfl) hwrite
    · exact h

theorem holdsTexts_run {commands : List Command} (h : s.HoldsTexts)
    (hdocs : ∀ w, .write w ∈ commands → w.doc.Parses) : (s.run commands).HoldsTexts := by
  induction commands generalizing s with
  | nil => exact h
  | cons command commands ih =>
    have hdoc : ∀ w, command = .write w → w.doc.Parses :=
      fun w hw => hdocs w (hw ▸ List.mem_cons_self)
    exact ih (holdsTexts_perform h hdoc) fun w hw => hdocs w (List.mem_cons_of_mem _ hw)

/-- Whether a selection succeeds and answers just the rows of a scan that have a value at a key, in
the order of the scan. -/
def SelectsExactly (s : TableStore) (c : Collection) (key : String) (value : Json) : Prop :=
  ∃ docs, s.scan c = .ok docs ∧ s.filterEq c key value = .ok (docs.filter (·.hasAt key value))

theorem selectsExactly_of_isPlain (h : s.HoldsTexts) (hkey : Extract.IsPlain key)
    (hvalue : Extract.IsNotReal value)
    (htable : (s.database.table? (s.tableName c)).isSome = true) :
    s.SelectsExactly c key value := by
  obtain ⟨t, ht⟩ := Option.isSome_iff_exists.1 htable
  have hbodies : s.database.bodies (s.tableName c) = .ok (t.rows.map (·.body)) := by
    rw [Database.bodies, Database.table, ht]
    rfl
  have htext : ∀ body ∈ t.rows.map (·.body),
      ∃ doc : Document, doc.Parses ∧ body = (Json.object doc).render := by
    intro body hbody
    obtain ⟨row, hrow, rfl⟩ := List.mem_map.1 hbody
    exact h t (List.mem_of_find?_eq_some ht) row hrow
  have hreadable : ∀ body ∈ t.rows.map (·.body), ∃ doc, readBody body = .ok doc := by
    intro body hbody
    obtain ⟨doc, hdoc, rfl⟩ := htext body hbody
    obtain ⟨ms, -, hread⟩ := hdoc.exists_members
    exact ⟨_, hread⟩
  obtain ⟨docs, hdocs, -⟩ := exists_readBodies hreadable c
  refine ⟨docs, ?_, filterEq_of_searches hbodies (mapM_of_readBodies hdocs) fun body hbody => ?_⟩
  · rw [scan, hbodies]
    exact hdocs
  · obtain ⟨doc, hdoc, rfl⟩ := htext body hbody
    exact Extract.searches_render hkey hvalue hdoc

end TableStore

/-! ## Escapes -/

namespace Json.Lenient

/-- An escape gives one character at most, and is written with more than one. -/
theorem decode_escape {fuel : Nat} {cs : List Char} {ns : List Nat}
    (h : decode (fuel + 1) ('\\' :: cs) = ns) :
    (cs = [] ∧ ns = [invalid]) ∨
      ∃ first rest, ns = first ++ decode fuel rest ∧ first.length ≤ 1 ∧ rest.length < cs.length := by
  unfold decode at h
  split at h
  · rename_i heq
    cases heq
  · rename_i heq
    cases heq
  · rename_i heq hcs
    obtain rfl := Nat.succ.inj heq
    obtain rfl := (List.cons.inj hcs).2
    split at h
    · split at h
      · dsimp only at h
        split at h
        · exact .inr ⟨[_], _, h.symm, Nat.le_refl 1, by simp only [List.length_cons]; omega⟩
        · exact .inr ⟨[_], _, h.symm, Nat.le_refl 1, by simp only [List.length_cons]; omega⟩
      · exact .inr ⟨[_], _, h.symm, Nat.le_refl 1, by simp only [List.length_cons]; omega⟩
    all_goals first
      | exact .inl ⟨rfl, h.symm⟩
      | exact .inr ⟨[_], _, h.symm, Nat.le_refl 1, by simp only [List.length_cons]; omega⟩
      | exact .inr ⟨[], _, h.symm, Nat.zero_le 1, by simp only [List.length_cons]; omega⟩
  · rename_i hother heq hcs
    exact absurd (List.cons.inj hcs).1.symm hother

theorem length_decode_le (fuel : Nat) (cs : List Char) : (decode fuel cs).length ≤ cs.length := by
  induction fuel generalizing cs with
  | zero => simp [decode]
  | succ fuel ih =>
    cases cs with
    | nil => exact Nat.le_refl 0
    | cons c cs =>
      by_cases hc : c = '\\'
      · subst hc
        generalize hdecode : decode (fuel + 1) ('\\' :: cs) = ns
        rcases decode_escape hdecode with ⟨rfl, rfl⟩ | ⟨first, rest, hmore, hfirst, hrest⟩
        · exact Nat.le_refl 1
        · have hle := ih rest
          rw [hmore, List.length_append, List.length_cons]
          omega
      · have hle := ih cs
        simp only [decode, List.length_cons]
        omega

/-- What is written with a backslash means other characters. -/
theorem notMem_of_decode_eq {fuel : Nat} {cs : List Char} (hfuel : cs.length ≤ fuel)
    (h : decode fuel cs = cs.map Char.toNat) : '\\' ∉ cs := by
  induction cs generalizing fuel with
  | nil => exact List.not_mem_nil
  | cons c cs ih =>
    obtain ⟨n, rfl⟩ : ∃ n, fuel = n + 1 := ⟨fuel - 1, by simp at hfuel; omega⟩
    by_cases hc : c = '\\'
    · subst hc
      rcases decode_escape h with ⟨rfl, hlast⟩ | ⟨first, rest, hmore, hfirst, hrest⟩
      · exact absurd hlast (by decide)
      · have hle := length_decode_le n rest
        have hlength := congrArg List.length hmore
        simp only [List.length_append, List.length_map, List.length_cons] at hlength
        omega
    · simp only [decode, List.map_cons, List.cons.injEq, true_and] at h
      exact List.not_mem_cons_of_ne_of_not_mem (Ne.symm hc) (ih (by simpa using hfuel) h)

end Json.Lenient

namespace Extract

open Json.Lenient (characters decode length_decode_le notMem_of_decode_eq)

variable {key : String} {doc : Document}

/-! ## The first step of a path -/

theorem quoted_of_mem (h : '\x00' ∈ key.toList) :
    quoted key = key.toList.takeWhile (· != '\x00') := by
  have hlength : (key.toList.takeWhile (· != '\x00')).length ≠ key.toList.length := by
    intro heq
    have hall := (List.takeWhile_prefix (p := (· != '\x00'))).eq_of_length heq
    exact absurd rfl (bne_iff_ne.1 (List.takeWhile_eq_self_iff.1 hall _ h))
  rw [quoted, List.takeWhile_append, if_neg hlength]

theorem takeWhile_of_notMem (h : '\x00' ∉ key.toList) :
    key.toList.takeWhile (· != '\x00') = key.toList :=
  List.takeWhile_eq_self_iff.2 fun _ hc => bne_iff_ne.2 fun heq => h (heq ▸ hc)

theorem label_written (key : String) :
    label (written key) = (key.toList.takeWhile (· != '\x00')).map Char.toNat := by
  have hnull : ((fun n : Nat => n != 0) ∘ Char.toNat) = (· != '\x00') := by
    funext c
    rw [Function.comp_apply, Bool.eq_iff_iff, bne_iff_ne, bne_iff_ne]
    exact ⟨fun h hc => h (hc ▸ rfl), toNat_ne_zero⟩
  rw [label, Json.characters_written, List.takeWhile_map, hnull]

/-- Only the whole of some characters without a backslash is read as these characters. -/
theorem eq_of_label {step cs : List Char} (hstart : step <+: cs)
    (hlabel : label step = cs.map Char.toNat) : step = cs ∧ '\\' ∉ cs := by
  have hlabelled : label step <+: characters step := List.takeWhile_prefix _
  have hle : (characters step).length ≤ step.length := length_decode_le _ _
  have hstep : step = cs := by
    refine hstart.eq_of_length_le ?_
    have hlength := congrArg List.length hlabel
    have hshort := hlabelled.length_le
    rw [List.length_map] at hlength
    omega
  subst hstep
  have hall : label step = characters step := by
    refine hlabelled.eq_of_length_le ?_
    rw [hlabel, List.length_map]
    exact hle
  exact ⟨rfl, notMem_of_decode_eq (Nat.le_refl _) (hall.symm.trans hlabel)⟩

/-- A path that has a first step by the label of its key is the path to a plain key. -/
theorem isPlain_of_label (hclosed : (quoted key).dropWhile (· != '"') ≠ [])
    (hlabel : label ((quoted key).takeWhile (· != '"')) = label (written key)) : IsPlain key := by
  rw [label_written] at hlabel
  by_cases hnull : '\x00' ∈ key.toList
  · rw [← quoted_of_mem hnull] at hlabel
    obtain ⟨hwhole, -⟩ := eq_of_label (List.takeWhile_prefix _) hlabel
    have hsplit := List.takeWhile_append_dropWhile (p := (· != '"')) (l := quoted key)
    rw [hwhole] at hsplit
    exact absurd (List.append_right_eq_self.1 hsplit) hclosed
  · rw [takeWhile_of_notMem hnull] at hlabel
    have hstart : (quoted key).takeWhile (· != '"') <+: key.toList := by
      rw [quoted_of_notMem hnull, List.takeWhile_append]
      split
      · change key.toList ++ [] <+: key.toList
        rw [List.append_nil]
      · exact List.takeWhile_prefix _
    obtain ⟨hwhole, hslash⟩ := eq_of_label hstart hlabel
    intro c hc
    refine ⟨?_, fun heq => hslash (heq ▸ hc), fun heq => hnull (heq ▸ hc)⟩
    rw [← hwhole] at hc
    exact bne_iff_ne.1 (List.mem_takeWhile_imp (p := (· != '"')) hc)

theorem through_text (next : List Char → Lenient → Followed) (key rest text : List Char) :
    through next key rest (.text text) = .missing := rfl

/-- A path leads from a text to nothing but the text itself. -/
theorem eq_of_follow {fuel : Nat} {cs text : List Char} {l : Lenient}
    (h : follow fuel cs (.text text) = .found l) : l = .text text := by
  unfold follow at h
  split at h
  · cases h
  · exact (Followed.found.inj h).symm
  · split at h
    · cases h
    · rw [through_text] at h
      cases h
  · split at h
    · cases h
    · rw [through_text] at h
      cases h
  · cases h
  · cases h

/-- A key that is not plain is not looked for, or another is in its place. -/
theorem matches?_ne_true {i : Int} (hkey : ¬ IsPlain key) (hdoc : doc.Parses)
    (hmembers : ∀ m ∈ doc, m.1 = key ∨ ∃ s, m.2 = .string s) :
    matches? key (.integer i) (Json.object doc).render ≠ .ok true := by
  have hparse := Json.parse?_render (hdoc.fitsIn.mono (show 127 ≤ 1000 by decide))
  rw [matches?, atKey, hparse, toList_path, Json.seen]
  dsimp only
  rw [follow_path]
  cases hclosed : (quoted key).dropWhile (· != '"') with
  | nil => exact fun h => (by cases h)
  | cons quote rest =>
    dsimp only
    cases hfound : member? ((quoted key).takeWhile (· != '"')) (seenMembers doc) with
    | none => exact fun h => (by cases h)
    | some l =>
      obtain ⟨m, hm, rfl⟩ := Option.map_eq_some_iff.1 hfound
      have hlabel := List.find?_some hm
      have hmem := List.mem_of_find?_eq_some hm
      rw [seenMembers_eq_map] at hmem
      obtain ⟨n, hn, rfl⟩ := List.mem_map.1 hmem
      have hother : n.1 ≠ key := by
        intro heq
        refine hkey (isPlain_of_label (by rw [hclosed]; exact List.cons_ne_nil _ _) ?_)
        rw [← beq_iff_eq.1 hlabel, heq]
      obtain ⟨s, hs⟩ := (hmembers n hn).resolve_left hother
      dsimp only
      rw [hs, Json.seen]
      cases hfollow : follow (key.length + 3) rest (.text (written s)) with
      | found l =>
        obtain rfl := eq_of_follow hfollow
        exact fun h => (by cases h)
      | missing => exact fun h => (by cases h)
      | badPath => exact fun h => (by cases h)

end Extract

/-! ## Keys of which rows are lost -/

namespace TableStore

variable {s : TableStore} {c : Collection} {key : String}

theorem rereads_true {room : Nat} : (Json.bool true).Rereads room :=
  ⟨rfl, Json.reread_of_scalar (by trivial) room⟩

/-- A document with a truth value, as it is written without an id of its own. -/
theorem identified_flag (key fresh : String) :
    (Document.identified fresh [(key, .bool true)]).2 =
      Members.insert Document.idKey (.string fresh) [(key, .bool true)] := by
  have hid : Document.id? [(key, .bool true)] = none := by
    unfold Document.id? Document.text? Members.get?
    rw [Members.lookup_cons]
    split <;> rfl
  rw [Document.identified, hid]
  rfl

/-- A store that holds just one row does not answer with it where the database does not find it. -/
theorem not_selectsExactly_of_holds {rows : ByCollection (List Document)} {row : Document}
    (h : s.Holds rows) (hrows : rows.get c = [row]) (hhas : row.hasAt key (.bool true) = true)
    (hmatches : Extract.matches? key (.integer 1) (Json.object row).render ≠ .ok true) :
    ¬ s.SelectsExactly c key (.bool true) := by
  rintro ⟨docs, hscan, hfilter⟩
  rw [scan_of_holds h, hrows] at hscan
  obtain rfl := Except.ok.inj hscan
  have hbodies := bodies_of_holds h c
  rw [hrows, List.map_singleton] at hbodies
  rw [List.filter_singleton, hhas, cond_true] at hfilter
  simp only [filterEq, candidates, Scalar.ofJson, if_true, Database.bodiesWith, hbodies,
    Extract.select, bind, Except.bind] at hfilter
  cases hmatch : Extract.matches? key (.integer 1) (Json.object row).render with
  | error fault =>
    rw [hmatch] at hfilter
    cases hfilter
  | ok found =>
    cases found with
    | true => exact hmatches hmatch
    | false =>
      rw [hmatch] at hfilter
      cases hfilter

/-- A store of one row, which has a truth value at a key that is not plain. -/
theorem not_selectsExactly_flag (hkey : ¬ Extract.IsPlain key) :
    let s : TableStore := { path := "lab.db", names := .ofFn Collection.name }
    let x := s.run [.ensure, .write (.insert .tests "t" [(key, .bool true)])]
    (x.database.table? (x.tableName .tests)).isSome = true ∧
      ¬ x.SelectsExactly .tests key (.bool true) := by
  intro s x
  obtain ⟨s₁, hprepare, hready⟩ := exists_ready_usual "lab.db"
  let w : Write := .insert .tests "t" [(key, .bool true)]
  have hrow : w.row.ReadsBack := (Document.readsBack_nil.insert key rereads_true).identified "t"
  have hflag : w.row = Members.insert Document.idKey (.string "t") [(key, .bool true)] :=
    identified_flag key "t"
  have hid : key ≠ Document.idKey := by
    rintro rfl
    exact hkey (by simp [Extract.IsPlain, Document.idKey])
  obtain ⟨s₂, hwrite⟩ := hready.exists_write (w := w) (by simp [w, Write.IsFree])
  have hholds := (hready.write hrow hwrite).1.holds
  have hrun : x = s₂ := by
    obtain ⟨-, database, hensure, rfl⟩ := prepare_eq_ok hprepare
    have hprepared : s.perform .ensure = { s with database } := by
      rw [perform, ensure, hensure]
    change s.run [.ensure, .write w] = s₂
    rw [run, List.foldl_cons, hprepared, List.foldl_cons, List.foldl_nil, perform, hwrite]
  have hrows : (s₁.rowsAfter (.ofFn fun _ => []) w).get w.collection = [w.row] := by
    rw [rowsAfter_of_free (by rw [ByCollection.get_ofFn]; rfl), ByCollection.get_set_self,
      ByCollection.get_ofFn, upsertRow_of_id w.id?_row]
    rfl
  obtain ⟨t, ht, -⟩ := hholds.tables w.collection
  rw [hrun]
  refine ⟨Option.isSome_iff_exists.2 ⟨t, ht⟩, not_selectsExactly_of_holds hholds hrows ?_ ?_⟩
  · have hself : (Json.bool true == Json.bool true) = true := rfl
    rw [hflag, Document.hasAt, Members.get?_insert_of_ne hid]
    simp [Members.get?, hself]
  · refine Extract.matches?_ne_true hkey hrow.parses fun m hm => ?_
    rw [hflag] at hm
    rcases Members.mem_insert hm with rfl | hm
    · exact .inr ⟨"t", rfl⟩
    · exact .inl (congrArg Prod.fst (List.mem_singleton.1 hm))

/-- A selection by a value that is no real number is exact, whatever was written before, for just the
plain keys. -/
theorem selections_exact_iff_isPlain (key : String) :
    (∀ (s : TableStore) (commands : List Command) (c : Collection) (value : Json),
      s.database = .empty → (∀ w, .write w ∈ commands → w.doc.Parses) →
      Extract.IsNotReal value →
      let x := s.run commands
      (x.database.table? (x.tableName c)).isSome = true → x.SelectsExactly c key value) ↔
      Extract.IsPlain key := by
  constructor
  · intro h
    by_contra hkey
    obtain ⟨htable, hlost⟩ := not_selectsExactly_flag hkey
    refine hlost (h _ _ .tests (.bool true) rfl (fun w hw => ?_) trivial htable)
    obtain rfl : w = .insert .tests "t" [(key, .bool true)] := by simpa using hw
    exact (Document.readsBack_nil.insert key rereads_true).parses
  · intro hkey s commands c value hempty hdocs hvalue x htable
    have hnothing : s.HoldsTexts := by
      intro t ht
      rw [hempty] at ht
      exact absurd ht List.not_mem_nil
    exact selectsExactly_of_isPlain (holdsTexts_run hnothing hdocs) hkey hvalue htable

/-- A row that a scan lists with a truth value at a key with a quote, and that a selection of it does
not answer with. -/
theorem row_lost_at_quoted_key :
    let s : TableStore := { path := "lab.db", names := .ofFn Collection.name }
    let x := s.run [.ensure, .write (.insert .tests "t" [("a\"b", .bool true)])]
    (x.scan .tests).map (·.map (·.hasAt "a\"b" (.bool true))) = .ok [true] ∧
      ¬ x.SelectsExactly .tests "a\"b" (.bool true) := by
  refine ⟨by decide +kernel, (not_selectsExactly_flag fun hkey => ?_).2⟩
  exact (hkey '"' (by decide)).1 rfl

end TableStore

end TrialBoard
