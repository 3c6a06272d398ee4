import Tierkreis.Restart.Sqlite
import Tierkreis.State.Batch

/-!
# What a copy in SQLite does

A copy into an attempt that has just been made either fails or leaves the rows
of the source that are not cleared, with their outputs, and the inputs at their
locations.
-/

namespace Tierkreis

open Lib Lib.Txn Lib.Run Sql

namespace Sql

section Rows

variable (K : Crates) (run : Uuid) (source dest : Int) (f : NodeCopyFilter)

/-- The insertions for a row are accepted. -/
def Copies (db : Db) (e : Location × NodeRow) : Prop :=
  f.clears e.1 = true ∨
    (((f.resetLoopIndex.get? e.1).getD 0 < 2 ^ 31 ∧
      db.nodeStates.contains (run, dest, e.1) = false ∧
      db.attempts.contains (run, dest) = true) ∧
      ∀ r ∈ (Db.rowsAt db.inputs (run, source, e.1)).toList,
        (Db.rowsAt db.inputs (run, dest, e.1)).contains r.1 = false)

def copyNode (t : HashMap NodeKey NodeRow) (e : Location × NodeRow) : HashMap NodeKey NodeRow :=
  if f.clears e.1 = true then t else t.insert (run, dest, e.1) (copiedRow K f e.1 e.2)

def copyOutputRows (t : HashMap NodeKey (HashMap String AssetRow)) (e : Location × NodeRow) :
    HashMap NodeKey (HashMap String AssetRow) :=
  if f.clears e.1 = true ∨ e.1 ∈ f.truncateExact then t
  else t.insert (run, dest, e.1) (Db.rowsAt t (run, source, e.1))

def copyInputRows (t : HashMap NodeKey (HashMap String AssetRow)) (e : Location × NodeRow) :
    HashMap NodeKey (HashMap String AssetRow) :=
  if f.clears e.1 = true ∨ (Db.rowsAt t (run, source, e.1)).toList.isEmpty = true then t
  else t.insert (run, dest, e.1)
    ((Db.rowsAt t (run, dest, e.1)).extend (Db.rowsAt t (run, source, e.1)))

/-- How many statements the copy of a row takes. -/
def copyRowStatements (e : Location × NodeRow) : Nat :=
  if f.clears e.1 = true then 0 else if e.1 ∈ f.truncateExact then 2 else 3

/-- The contents with one more row copied. -/
def withCopy (db : Db) (e : Location × NodeRow) : Db :=
  { db with
    nodeStates := copyNode K run dest f db.nodeStates e
    nodeOutputs := copyOutputRows run source dest f db.nodeOutputs e
    inputs := copyInputRows run source dest f db.inputs e }

variable {K run source dest f}

theorem completeTime_copiedRow (loc : Location) (row : NodeRow) :
    (copiedRow K f loc row).completeTime =
      if loc ∈ f.truncateExact then none else row.completeTime := by
  unfold copiedRow
  dsimp only
  split_ifs <;> rfl

theorem clean_copyOutputs (run : Uuid) (source dest : Int) (db : Db) (loc : Location)
    (row : NodeRow) (hcl : f.clears loc = false) : Clean (copyOutputs run source dest f loc) db ()
      { db with nodeOutputs := copyOutputRows run source dest f db.nodeOutputs (loc, row) }
      (if loc ∈ f.truncateExact then 0 else 1) := by
  unfold copyOutputs copyOutputRows
  by_cases ht : loc ∈ f.truncateExact
  · rw [if_pos ht, if_pos ht, if_pos (Or.inr ht)]
    exact .ok () _
  · rw [if_neg ht, if_neg ht, if_neg (by rw [hcl]; simp [ht])]
    exact .stmt rfl

theorem clean_copyInputs {db : Db} {loc : Location} (row : NodeRow) (hcl : f.clears loc = false)
    (h : ∀ r ∈ (Db.rowsAt db.inputs (run, source, loc)).toList,
      (Db.rowsAt db.inputs (run, dest, loc)).contains r.1 = false) :
    Clean (copyInputs run source dest loc) db ()
      { db with inputs := copyInputRows run source dest f db.inputs (loc, row) } 1 := by
  refine Clean.stmt ?_
  unfold copyInputRows
  dsimp only
  by_cases he : (Db.rowsAt db.inputs (run, source, loc)).toList.isEmpty = true
  · rw [if_pos he, if_pos (Or.inr he)]
  · have hany : ¬ ((Db.rowsAt db.inputs (run, source, loc)).toList.any fun e =>
        (Db.rowsAt db.inputs (run, dest, loc)).contains e.1) = true := by
      rw [List.any_eq_true]
      rintro ⟨r, hr, hc⟩
      rw [h r hr] at hc
      cases hc
    rw [if_neg he, if_neg hany, if_neg (by rw [hcl]; simp [he])]

theorem breaks_copyInputs {db : Db} {loc : Location} {r : String × AssetRow}
    (hr : r ∈ (Db.rowsAt db.inputs (run, source, loc)).toList)
    (hc : (Db.rowsAt db.inputs (run, dest, loc)).contains r.1 = true) :
    Breaks (copyInputs run source dest loc) db := by
  have he : ¬ (Db.rowsAt db.inputs (run, source, loc)).toList.isEmpty = true := by
    rw [List.isEmpty_iff]
    exact List.ne_nil_of_mem hr
  exact Breaks.stmt ((if_neg he).trans (if_pos (List.any_eq_true.2 ⟨r, hr, hc⟩)))

/-- The statement that inserts the row. -/
def insertCopy (K : Crates) (run : Uuid) (dest : Int) (f : NodeCopyFilter) (e : Location × NodeRow)
    (db : Db) : Result (Unit × Db) :=
  if ((f.resetLoopIndex.get? e.1).getD 0) ≥ 2 ^ 31 then
    .error (.panic "Failed to convert to signed integer")
  else if db.nodeStates.contains (run, dest, e.1) then
    .error (.miette "UNIQUE constraint failed: node_states")
  else if db.attempts.contains (run, dest) then
    .ok ((), { db with
      nodeStates := db.nodeStates.insert (run, dest, e.1) (copiedRow K f e.1 e.2) })
  else .error (.miette "FOREIGN KEY constraint failed")

theorem copyRow_eq {e : Location × NodeRow} (hcl : f.clears e.1 = false) :
    copyRow K run source dest f e = (Prog.stmt (insertCopy K run dest f e)).andThen fun _ =>
      (copyOutputs run source dest f e.1).andThen fun _ => copyInputs run source dest e.1 := by
  rw [copyRow, hcl]
  exact if_neg Bool.false_ne_true

theorem insertCopy_eq_ok {e : Location × NodeRow} {db db' : Db} (hcl : f.clears e.1 = false) :
    insertCopy K run dest f e db = .ok ((), db') ↔
      ((f.resetLoopIndex.get? e.1).getD 0 < 2 ^ 31 ∧
        db.nodeStates.contains (run, dest, e.1) = false ∧
        db.attempts.contains (run, dest) = true) ∧
      db' = { db with nodeStates := copyNode K run dest f db.nodeStates e } := by
  rw [insertCopy, copyNode, hcl, if_neg Bool.false_ne_true]
  by_cases hl : (f.resetLoopIndex.get? e.1).getD 0 ≥ 2 ^ 31
  · rw [if_pos hl]
    exact ⟨fun h => (by cases h), fun h => absurd hl (Nat.not_le.2 h.1.1)⟩
  · rw [if_neg hl]
    cases hn : db.nodeStates.contains (run, dest, e.1) with
    | true => exact ⟨fun h => (by cases h), fun h => absurd h.1.2.1 (by simp)⟩
    | false =>
      cases ha : db.attempts.contains (run, dest) with
      | true =>
        rw [if_neg Bool.false_ne_true, if_pos rfl]
        exact ⟨fun h => ⟨⟨Nat.lt_of_not_le hl, rfl, rfl⟩, (Prod.mk.inj (Except.ok.inj h)).2.symm⟩,
          fun h => by rw [h.2]⟩
      | false => exact ⟨fun h => (by cases h), fun h => absurd h.1.2.2 (by simp)⟩

theorem clean_copyRow {db : Db} {e : Location × NodeRow} (h : Copies run source dest f db e) :
    Clean (copyRow K run source dest f e) db () (withCopy K run source dest f db e)
      (copyRowStatements f e) := by
  cases hcl : f.clears e.1 with
  | true =>
    simp only [copyRow, withCopy, copyNode, copyOutputRows, copyInputRows, copyRowStatements, hcl,
      if_true, true_or]
    exact .ok () _
  | false =>
    obtain ⟨hrow, hinputs⟩ := h.resolve_left (by rw [hcl]; exact Bool.false_ne_true)
    rw [copyRow_eq hcl]
    have hinsert : Clean (Prog.stmt (insertCopy K run dest f e)) db ()
        { db with nodeStates := copyNode K run dest f db.nodeStates e } 1 :=
      .stmt ((insertCopy_eq_ok hcl).2 ⟨hrow, rfl⟩)
    have houtputs := clean_copyOutputs run source dest
      { db with nodeStates := copyNode K run dest f db.nodeStates e } e.1 e.2 hcl
    have hn : copyRowStatements f e = 1 + ((if e.1 ∈ f.truncateExact then 0 else 1) + 1) := by
      rw [copyRowStatements, hcl, if_neg Bool.false_ne_true]
      split_ifs <;> rfl
    rw [hn]
    exact hinsert.andThen (houtputs.andThen (clean_copyInputs e.2 hcl hinputs))

theorem breaks_copyRow {db : Db} {e : Location × NodeRow} (h : ¬ Copies run source dest f db e) :
    Breaks (copyRow K run source dest f e) db := by
  rw [Copies, not_or, Bool.not_eq_true] at h
  obtain ⟨hcl, h⟩ := h
  rw [copyRow_eq hcl]
  cases hi : insertCopy K run dest f e db with
  | error g => exact (Breaks.stmt hi).andThen _
  | ok out =>
    obtain ⟨⟨⟩, db'⟩ := out
    obtain ⟨hrow, rfl⟩ := (insertCopy_eq_ok hcl).1 hi
    have hr : ∃ r ∈ (Db.rowsAt db.inputs (run, source, e.1)).toList,
        (Db.rowsAt db.inputs (run, dest, e.1)).contains r.1 = true := by
      by_contra hn
      refine h ⟨hrow, fun r hr => ?_⟩
      rw [Bool.eq_false_iff]
      exact fun hc => hn ⟨r, hr, hc⟩
    obtain ⟨r, hr, hc⟩ := hr
    have houtputs := clean_copyOutputs run source dest
      { db with nodeStates := copyNode K run dest f db.nodeStates e } e.1 e.2 hcl
    exact (Clean.stmt hi).andThen_breaks (houtputs.andThen_breaks (breaks_copyInputs hr hc))

end Rows

/-! ## All rows -/

section All

variable {K : Crates} {db : Db} {run : Uuid} {source dest : Int} {f : NodeCopyFilter}

theorem mem_rowsOf {e : Location × NodeRow} :
    e ∈ rowsOf db run source ↔ db.nodeStates.get? (run, source, e.1) = some e.2 := by
  obtain ⟨loc, row⟩ := e
  simp only [rowsOf, List.mem_map, List.mem_filter, Bool.and_eq_true, beq_iff_eq,
    HashMap.get?_eq_some_iff]
  constructor
  · rintro ⟨⟨⟨r, i, l⟩, row'⟩, ⟨hm, rfl, rfl⟩, he⟩
    cases he
    exact hm
  · exact fun h => ⟨_, ⟨h, rfl, rfl⟩, rfl⟩

theorem nodup_rowsOf : ((rowsOf db run source).map Prod.fst).Nodup := by
  have hnd := db.nodeStates.nodup_toList
  rw [rowsOf, List.map_map]
  refine List.Nodup.map_on ?_ ?_
  · rintro ⟨⟨r, i, l⟩, row⟩ hx ⟨⟨r', i', l'⟩, row'⟩ hy he
    simp only [List.mem_filter, Bool.and_eq_true, beq_iff_eq] at hx hy
    obtain ⟨hx, rfl, rfl⟩ := hx
    obtain ⟨hy, rfl, rfl⟩ := hy
    obtain rfl : l = l' := he
    have hrow := HashMap.get?_eq_some_iff.2 hx
    rw [HashMap.get?_eq_some_iff.2 hy] at hrow
    rw [Option.some.inj hrow]
  · exact (List.Nodup.of_map _ hnd).filter _

/-- The attempt has just been made: it has its row and at most root inputs. -/
structure Fresh (db : Db) (run : Uuid) (dest : Int) : Prop where
  attempt : db.attempts.contains (run, dest) = true
  nodes : ∀ loc, db.nodeStates.get? (run, dest, loc) = none
  outputs : ∀ loc, db.nodeOutputs.get? (run, dest, loc) = none
  inputs : ∀ loc, loc ≠ Location.root → ∀ name,
    (Db.rowsAt db.inputs (run, dest, loc)).get? name = none

/-- What `l` copies, table by table. -/
theorem foldl_withCopy {l : List (Location × NodeRow)} : ∀ db : Db,
    l.foldl (withCopy K run source dest f) db = { db with
      nodeStates := l.foldl (copyNode K run dest f) db.nodeStates
      nodeOutputs := l.foldl (copyOutputRows run source dest f) db.nodeOutputs
      inputs := l.foldl (copyInputRows run source dest f) db.inputs } := by
  induction l with
  | nil => exact fun _ => rfl
  | cons e l ih =>
    intro db
    rw [List.foldl_cons, ih]
    rfl

section Tables

variable {l : List (Location × NodeRow)} (hl : (l.map Prod.fst).Nodup)

include hl in
theorem nodup_keys : (l.map fun e => ((run, dest, e.1) : NodeKey)).Nodup := by
  have h := hl.map (f := fun loc => ((run, dest, loc) : NodeKey)) fun a b hab =>
    (Prod.mk.inj (Prod.mk.inj hab).2).2
  rwa [List.map_map] at h

theorem notMem_keys {key : NodeKey} (h : ∀ e ∈ l, key ≠ (run, dest, e.1)) :
    key ∉ l.map fun e => ((run, dest, e.1) : NodeKey) := by
  rw [List.mem_map]
  rintro ⟨e, he, rfl⟩
  exact h e he rfl

variable (K run f)

include hl in
theorem get?_copyNodes (dest : Int) (t : HashMap NodeKey NodeRow) :
    (∀ e ∈ l, (l.foldl (copyNode K run dest f) t).get? (run, dest, e.1) =
        if f.clears e.1 = true then t.get? (run, dest, e.1) else some (copiedRow K f e.1 e.2)) ∧
      ∀ key, (∀ e ∈ l, key ≠ (run, dest, e.1)) →
        (l.foldl (copyNode K run dest f) t).get? key = t.get? key := by
  have h := HashMap.get?_foldl_put (copyNode K run dest f) (fun e => (run, dest, e.1))
    (fun m e =>
      if f.clears e.1 = true then m.get? (run, dest, e.1) else some (copiedRow K f e.1 e.2))
    (fun key => key.1 = run ∧ key.2.1 = dest) (fun _ => ⟨rfl, rfl⟩)
    (fun m e key => by
      unfold copyNode
      by_cases hcl : f.clears e.1 = true
      · by_cases hk : key = (run, dest, e.1) <;> simp [hcl, hk]
      · simp [hcl, HashMap.get?_insert])
    (fun m m' e hk _ => by rw [hk]) (m := t) (nodup_keys hl)
  exact ⟨h.1, fun key hk => h.2 key (notMem_keys hk)⟩

variable (hne : source ≠ dest)

include hl hne in
theorem get?_copyOutputRows (t : HashMap NodeKey (HashMap String AssetRow)) :
    (∀ e ∈ l, (l.foldl (copyOutputRows run source dest f) t).get? (run, dest, e.1) =
        if f.clears e.1 = true ∨ e.1 ∈ f.truncateExact then t.get? (run, dest, e.1)
        else some (Db.rowsAt t (run, source, e.1))) ∧
      ∀ key, (∀ e ∈ l, key ≠ (run, dest, e.1)) →
        (l.foldl (copyOutputRows run source dest f) t).get? key = t.get? key := by
  have h := HashMap.get?_foldl_put (copyOutputRows run source dest f) (fun e => (run, dest, e.1))
    (fun m e =>
      if f.clears e.1 = true ∨ e.1 ∈ f.truncateExact then m.get? (run, dest, e.1)
      else some (Db.rowsAt m (run, source, e.1)))
    (fun key => key.2.1 = dest) (fun _ => rfl)
    (fun m e key => by
      unfold copyOutputRows
      by_cases hc : f.clears e.1 = true ∨ e.1 ∈ f.truncateExact
      · by_cases hk : key = (run, dest, e.1) <;> simp [hc, hk]
      · rw [if_neg hc, HashMap.get?_insert, if_neg hc])
    (fun m m' e hk hs => by
      unfold Db.rowsAt
      rw [hk, hs (run, source, e.1) hne]) (m := t) (nodup_keys hl)
  exact ⟨h.1, fun key hk => h.2 key (notMem_keys hk)⟩

include hl hne in
theorem get?_copyInputRows (t : HashMap NodeKey (HashMap String AssetRow)) :
    (∀ e ∈ l, (l.foldl (copyInputRows run source dest f) t).get? (run, dest, e.1) =
        if f.clears e.1 = true ∨ (Db.rowsAt t (run, source, e.1)).toList.isEmpty = true then
          t.get? (run, dest, e.1)
        else some ((Db.rowsAt t (run, dest, e.1)).extend (Db.rowsAt t (run, source, e.1)))) ∧
      ∀ key, (∀ e ∈ l, key ≠ (run, dest, e.1)) →
        (l.foldl (copyInputRows run source dest f) t).get? key = t.get? key := by
  have h := HashMap.get?_foldl_put (copyInputRows run source dest f) (fun e => (run, dest, e.1))
    (fun m e =>
      if f.clears e.1 = true ∨ (Db.rowsAt m (run, source, e.1)).toList.isEmpty = true then
        m.get? (run, dest, e.1)
      else some ((Db.rowsAt m (run, dest, e.1)).extend (Db.rowsAt m (run, source, e.1))))
    (fun key => key.2.1 = dest) (fun _ => rfl)
    (fun m e key => by
      unfold copyInputRows
      by_cases hc : f.clears e.1 = true ∨
          (Db.rowsAt m (run, source, e.1)).toList.isEmpty = true
      · rw [if_pos hc, if_pos hc]
        by_cases hk : key = (run, dest, e.1)
        · rw [if_pos hk, hk]
        · rw [if_neg hk]
      · rw [if_neg hc, HashMap.get?_insert, if_neg hc])
    (fun m m' e hk hs => by
      unfold Db.rowsAt
      rw [hk, hs (run, source, e.1) hne]) (m := t) (nodup_keys hl)
  exact ⟨h.1, fun key hk => h.2 key (notMem_keys hk)⟩

end Tables

/-! ## A copy into a fresh attempt -/

variable (h : Fresh db run dest) (hne : source ≠ dest)

include h hne in
/-- Every row goes in when the loop indices fit their column and no input is there already. -/
theorem along_copies_iff :
    Along (withCopy K run source dest f) (Copies run source dest f) db (rowsOf db run source) ↔
      ∀ loc row, db.nodeStates.get? (run, source, loc) = some row → f.clears loc = false →
        (f.resetLoopIndex.get? loc).getD 0 < 2 ^ 31 ∧
          ∀ r ∈ (Db.rowsAt db.inputs (run, source, loc)).toList,
            (Db.rowsAt db.inputs (run, dest, loc)).contains r.1 = false := by
  have hturn : ∀ before e after, rowsOf db run source = before ++ e :: after →
      (Copies run source dest f (before.foldl (withCopy K run source dest f) db) e ↔
        (f.clears e.1 = true ∨ (f.resetLoopIndex.get? e.1).getD 0 < 2 ^ 31 ∧
          ∀ r ∈ (Db.rowsAt db.inputs (run, source, e.1)).toList,
            (Db.rowsAt db.inputs (run, dest, e.1)).contains r.1 = false)) := by
    intro before e after he
    have hnd : ((rowsOf db run source).map Prod.fst).Nodup := nodup_rowsOf
    rw [he, List.map_append, List.map_cons] at hnd
    have hbefore : (before.map Prod.fst).Nodup := hnd.of_append_left
    have hnew : ∀ x ∈ before, ((run, dest, e.1) : NodeKey) ≠ (run, dest, x.1) := by
      intro x hx hkey
      have hmem : e.1 ∈ before.map Prod.fst :=
        (Prod.mk.inj (Prod.mk.inj hkey).2).2 ▸ List.mem_map_of_mem hx
      exact (List.nodup_append.1 hnd).2.2 _ hmem _ (.head _) rfl
    have hsource : ∀ x ∈ before, ((run, source, e.1) : NodeKey) ≠ (run, dest, x.1) :=
      fun x _ hkey => hne (Prod.mk.inj (Prod.mk.inj hkey).2).1
    -- the rows copied so far leave the rows of `e` alone
    have hnodes : (before.foldl (copyNode K run dest f) db.nodeStates).contains
        (run, dest, e.1) = false := by
      rw [HashMap.contains, (get?_copyNodes K run f hbefore dest _).2 _ hnew, h.nodes]
      rfl
    have hinputs := (get?_copyInputRows run f hbefore hne db.inputs).2
    rw [foldl_withCopy, Copies]
    simp only [Db.rowsAt, hinputs _ hnew, hinputs _ hsource, hnodes, h.attempt, and_true]
  rw [along_split]
  constructor
  · intro ha loc row hrow hcl
    obtain ⟨before, after, he⟩ := List.append_of_mem (mem_rowsOf (e := (loc, row)).2 hrow)
    exact ((hturn before _ after he).1 (ha before _ after he)).resolve_left
      (by rw [hcl]; exact Bool.false_ne_true)
  · intro hall before e after he
    refine (hturn before e after he).2 ?_
    cases hcl : f.clears e.1 with
    | true => exact .inl rfl
    | false =>
      have hm : e ∈ rowsOf db run source := by
        rw [he]
        exact List.mem_append_right _ (.head _)
      exact .inr (hall e.1 e.2 (mem_rowsOf.1 hm) hcl)

variable (K db run source f)

include h in
theorem get?_copied_nodes (loc : Location) :
    ((rowsOf db run source).foldl (copyNode K run dest f) db.nodeStates).get? (run, dest, loc) =
      if f.clears loc = true then none
      else (db.nodeStates.get? (run, source, loc)).map (copiedRow K f loc) := by
  obtain ⟨hin, hout⟩ := get?_copyNodes K run f
    (nodup_rowsOf : ((rowsOf db run source).map Prod.fst).Nodup) dest db.nodeStates
  cases hrow : db.nodeStates.get? (run, source, loc) with
  | none =>
    rw [hout _ fun e he hk => ?_, h.nodes]
    · split_ifs <;> rfl
    · obtain rfl := (Prod.mk.inj (Prod.mk.inj hk).2).2
      rw [mem_rowsOf.1 he] at hrow
      cases hrow
  | some row =>
    rw [hin (loc, row) (mem_rowsOf.2 hrow), h.nodes]
    rfl

include h hne in
theorem get?_copied_outputs (loc : Location) (name : String) :
    (Db.rowsAt ((rowsOf db run source).foldl (copyOutputRows run source dest f) db.nodeOutputs)
        (run, dest, loc)).get? name =
      if f.clears loc = true ∨ loc ∈ f.truncateExact ∨
          db.nodeStates.get? (run, source, loc) = none then none
      else (Db.rowsAt db.nodeOutputs (run, source, loc)).get? name := by
  obtain ⟨hin, hout⟩ := get?_copyOutputRows run f
    (nodup_rowsOf : ((rowsOf db run source).map Prod.fst).Nodup) hne db.nodeOutputs
  rw [Db.rowsAt]
  cases hrow : db.nodeStates.get? (run, source, loc) with
  | none =>
    rw [if_pos (Or.inr (Or.inr rfl)), hout _ fun e he hk => ?_, h.outputs]
    · rfl
    · obtain rfl := (Prod.mk.inj (Prod.mk.inj hk).2).2
      rw [mem_rowsOf.1 he] at hrow
      cases hrow
  | some row =>
    rw [hin (loc, row) (mem_rowsOf.2 hrow), h.outputs]
    simp only [reduceCtorEq, or_false]
    by_cases hc : f.clears loc = true ∨ loc ∈ f.truncateExact
    · rw [if_pos hc, if_pos hc]
      rfl
    · rw [if_neg hc, if_neg hc]
      rfl

include hne in
theorem get?_copied_inputs (loc : Location) (name : String) :
    (Db.rowsAt ((rowsOf db run source).foldl (copyInputRows run source dest f) db.inputs)
        (run, dest, loc)).get? name =
      if f.clears loc = true ∨ db.nodeStates.get? (run, source, loc) = none then
        (Db.rowsAt db.inputs (run, dest, loc)).get? name
      else ((Db.rowsAt db.inputs (run, source, loc)).get? name).or
        ((Db.rowsAt db.inputs (run, dest, loc)).get? name) := by
  obtain ⟨hin, hout⟩ := get?_copyInputRows run f
    (nodup_rowsOf : ((rowsOf db run source).map Prod.fst).Nodup) hne db.inputs
  cases hrow : db.nodeStates.get? (run, source, loc) with
  | none =>
    rw [if_pos (Or.inr rfl), Db.rowsAt, hout _ fun e he hk => ?_]
    · rfl
    · obtain rfl := (Prod.mk.inj (Prod.mk.inj hk).2).2
      rw [mem_rowsOf.1 he] at hrow
      cases hrow
  | some row =>
    rw [Db.rowsAt, hin (loc, row) (mem_rowsOf.2 hrow)]
    simp only [reduceCtorEq, or_false]
    by_cases hcl : f.clears loc = true
    · rw [if_pos (Or.inl hcl), if_pos hcl]
      rfl
    · by_cases he : (Db.rowsAt db.inputs (run, source, loc)).toList.isEmpty = true
      · rw [if_pos (Or.inr he), if_neg hcl, ← HashMap.find?_toList (Db.rowsAt _ (run, source, loc)),
          List.isEmpty_iff.1 he]
        rfl
      · rw [if_neg (by simp [hcl, he]), if_neg hcl, Option.getD_some, HashMap.get?_extend]

end All

end Sql

namespace SqliteRuntimeState

variable (K : Crates) (st : SqliteRuntimeState) {target : RunAttempt} {source : Nat}
  (f : NodeCopyFilter)

/-- The contents after a copy of all rows. -/
def copied (db : Db) (target : RunAttempt) (source : Nat) : Db :=
  (rowsOf db target.1 source).foldl (withCopy K target.1 source target.2 f) db

/-- Without outside failures a copy goes through exactly when every insertion is accepted,
and else changes nothing. -/
theorem copyNodeStatesFrom_cases (hs : source < 2 ^ 31) (ht : target.2 < 2 ^ 31) :
    (Along (withCopy K target.1 source target.2 f) (Copies target.1 source target.2 f) st.db
        (rowsOf st.db target.1 source) →
      st.copyNodeStatesFrom K noFaults target source f =
        (.ok (), { st with db := copied K f st.db target source })) ∧
    (¬ Along (withCopy K target.1 source target.2 f) (Copies target.1 source target.2 f) st.db
        (rowsOf st.db target.1 source) →
      ∃ g, st.copyNodeStatesFrom K noFaults target source f = (.error g, st)) := by
  have hprog : ∀ s : Session Db, (getConn.andThen fun _ =>
      (Prog.lift (toI32 source)).andThen fun source =>
      (Prog.lift (toI32 target.2)).andThen fun dest =>
      copyNodeStatesProg K target.1 source dest f) noFaults s =
        copyNodeStatesProg K target.1 source target.2 f noFaults ⟨s.db, s.sent + 1⟩ := by
    intro s
    rw [toI32, toI32, if_pos hs, if_pos ht]
    rfl
  have hquery : Clean (Prog.query fun db : Db =>
      (.ok (rowsOf db target.1 source) : Result (List (Location × NodeRow)))) st.db
      (rowsOf st.db target.1 source) st.db 1 := .query rfl
  constructor
  · intro ha
    have hn := Clean.each_along (f := copyRow K target.1 source target.2 f)
      (fun db e he => clean_copyRow he) ha
    have hc : Clean (copyNodeStatesProg K target.1 source target.2 f) st.db ()
        (copied K f st.db target source) _ :=
      ((hquery.andThen (f := fun rows => Prog.each rows (copyRow K target.1 source target.2 f))
        hn).transaction).mapError _
    have hrun := (hc noFaults 1).1 fun _ _ => rfl
    rw [SqliteRuntimeState.copyNodeStatesFrom, exec, hprog, hrun]
  · intro ha
    have hb : Breaks (copyNodeStatesProg K target.1 source target.2 f) st.db :=
      ((hquery.andThen_breaks (f := fun rows => Prog.each rows (copyRow K target.1 source target.2 f))
        (Breaks.each_along (fun db e he => clean_copyRow he) (fun db e he => breaks_copyRow he)
          ha)).transaction).mapError _
    obtain ⟨g, s', hs'⟩ := hb noFaults 1
    have hdb : s'.db = st.db := (Atomic.transaction _).mapError _ _ _ _ _ hs'
    refine ⟨g, ?_⟩
    rw [SqliteRuntimeState.copyNodeStatesFrom, exec, hprog, hs', hdb]

/-- A copy that succeeds is a copy of all rows. -/
theorem copyNodeStatesFrom_eq_ok {st' : SqliteRuntimeState}
    (h : st.copyNodeStatesFrom K noFaults target source f = (.ok (), st')) :
    st' = { st with db := copied K f st.db target source } := by
  have hsmall : source < 2 ^ 31 ∧ target.2 < 2 ^ 31 := by
    by_contra hn
    have herr : ∃ g s, (getConn.andThen fun _ =>
        (Prog.lift (toI32 source)).andThen fun source =>
        (Prog.lift (toI32 target.2)).andThen fun dest =>
        copyNodeStatesProg K target.1 source dest f) noFaults ⟨st.db, 0⟩ = (.error g, s) := by
      rw [not_and_or] at hn
      by_cases hs : source < 2 ^ 31
      · rw [toI32, toI32, if_pos hs, if_neg (hn.resolve_left (not_not.2 hs))]
        exact ⟨_, _, rfl⟩
      · rw [toI32, if_neg hs]
        exact ⟨_, _, rfl⟩
    obtain ⟨g, s, hs⟩ := herr
    rw [SqliteRuntimeState.copyNodeStatesFrom, exec, hs] at h
    cases h
  obtain ⟨hok, herror⟩ := copyNodeStatesFrom_cases K st f hsmall.1 hsmall.2
  by_cases ha : Along (withCopy K target.1 source target.2 f) (Copies target.1 source target.2 f)
      st.db (rowsOf st.db target.1 source)
  · rw [hok ha] at h
    cases h
    rfl
  · obtain ⟨g, hg⟩ := herror ha
    rw [hg] at h
    cases h

end SqliteRuntimeState

end Tierkreis
