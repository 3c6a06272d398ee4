import Tierkreis.Controller.Scopes

/-!
# What the storage of a run holds

In every state of a run, what is recorded at a location is part of what the
location has to hold, and all of it once the location is finished. Only places
of the tree of scopes are ever started.
-/

namespace Tierkreis.Controller

open Lib Lib.StateExcept

variable {V : Type}

/-! ## Values of a location -/

/-- What a port reads depends on the values alone, not on their order. -/
theorem readPort_congr {outs outs' : PortValues} (h : ∀ k, outs.get? k = outs'.get? k)
    (port : PortID) : readPort outs port = readPort outs' port := by
  have horder : (outs.inKeyOrder fun a b => decide (a ≤ b)) =
      outs'.inKeyOrder fun a b => decide (a ≤ b) := by
    refine HashMap.inKeyOrder_congr (fun a b => ?_) (fun a b c hab hbc => ?_) (fun a b hab hba => ?_) h
    · simpa using String.le_total a b
    · exact decide_eq_true (String.le_trans (of_decide_eq_true hab) (of_decide_eq_true hbc))
    · exact String.le_antisymm (of_decide_eq_true hab) (of_decide_eq_true hba)
  unfold readPort
  rw [horder, h]

namespace Storage

variable {s : Storage V} {loc : Loc}

theorem toList_valuesAt (s : Storage V) (loc : Loc) :
    (s.valuesAt loc).toList = (s.readOutputPorts loc).filterMap fun p =>
      (s.outputs.get? (loc, p)).map fun bs => (p, bs) := by
  refine HashMap.toList_ofEntries ?_
  refine List.Nodup.sublist ?_ (s.nodup_readOutputPorts loc)
  induction s.readOutputPorts loc with
  | nil => exact .slnil
  | cons p l ih =>
    cases hp : s.outputs.get? (loc, p) with
    | none =>
      rw [List.filterMap_cons_none (by rw [hp, Option.map_none])]
      exact ih.cons _
    | some bs =>
      rw [List.filterMap_cons_some (by rw [hp, Option.map_some])]
      exact ih.cons_cons _

@[simp] theorem get?_valuesAt (s : Storage V) (loc : Loc) (p : PortID) :
    (s.valuesAt loc).get? p = s.outputs.get? (loc, p) := by
  refine Option.ext fun bs => ?_
  rw [HashMap.get?_eq_some_iff, toList_valuesAt, List.mem_filterMap]
  constructor
  · rintro ⟨q, -, hq⟩
    obtain ⟨bs', hbs', heq⟩ := Option.map_eq_some_iff.1 hq
    cases heq
    exact hbs'
  · intro h
    exact ⟨p, s.mem_readOutputPorts.2 (by rw [h]; rfl), by rw [h]; rfl⟩

/-- A star stands for all of the values, sorted. -/
theorem family_of_star {family : List (PortID × Bytes)}
    (h : readPort (s.valuesAt loc) "*" = some (.family family)) :
    family = (s.valuesAt loc).toList ∧ s.readOutputPorts loc = family.map Prod.fst := by
  have hstar : isStar "*" = true := by decide
  have hall : ∀ e : PortID × Bytes, ("*".toList.dropLast.isPrefixOf e.1.toList) = true := fun e => rfl
  have hports : (s.valuesAt loc).toList.map Prod.fst = s.readOutputPorts loc := by
    rw [toList_valuesAt]
    have hsome : ∀ p ∈ s.readOutputPorts loc, (s.outputs.get? (loc, p)).isSome = true :=
      fun p hp => s.mem_readOutputPorts.1 hp
    generalize s.readOutputPorts loc = l at hsome ⊢
    induction l with
    | nil => rfl
    | cons p l ih =>
      obtain ⟨bs, hbs⟩ := Option.isSome_iff_exists.1 (hsome p (.head _))
      rw [List.filterMap_cons_some (by rw [hbs, Option.map_some]), List.map_cons,
        ih fun q hq => hsome q (.tail _ hq)]
  have hsorted : ((s.valuesAt loc).toList).Pairwise fun a b => decide (a.1 ≤ b.1) = true := by
    have hp : (s.readOutputPorts loc).Pairwise (· ≤ ·) := List.pairwise_insertionSort _ _
    rw [← hports, List.pairwise_map] at hp
    exact hp.imp fun h => decide_eq_true h
  have hid : ((s.valuesAt loc).inKeyOrder fun a b => decide (a ≤ b)) = (s.valuesAt loc).toList :=
    hsorted.insertionSort_eq
  rw [readPort, hstar, if_pos rfl, hid, List.filter_eq_self.2 fun e _ => hall e] at h
  cases h
  exact ⟨rfl, hports.symm⟩

theorem outputs_of_readPort_value {port : PortID} {bs : Bytes}
    (h : readPort (s.valuesAt loc) port = some (.value bs)) :
    s.outputs.get? (loc, port) = some bs := by
  rw [← get?_valuesAt]
  exact (of_readPort_eq_value h).2

end Storage

/-- All of the values are recorded. -/
def Complete (s : Storage V) (loc : Loc) (outs : PortValues) : Prop :=
  ∀ p bs, outs.get? p = some bs → s.outputs.get? (loc, p) = some bs

/-- The same values, with one location more that is started. -/
structure StartedAt (loc : Loc) (s s' : Storage V) : Prop where
  outputs : s'.outputs = s.outputs
  finished : s'.finished = s.finished
  started : ∀ l, s'.isNodeStarted l = (decide (l = loc) || s.isNodeStarted l)

/-! ## The invariant -/

section Invariant

variable (W : Interpretation V) (g₀ : GraphData V) (env₀ : PortValues)

/-- What may be started. -/
inductive Place : Loc → Prop
  | scope {c : Loc} {F : Frame V} (h : Scope W g₀ env₀ c F) : Place c
  | node {c : Loc} {F : Frame V} {i : Nat} {node : NodeDef V} (h : NodeAt W g₀ env₀ c F i node) :
      Place (c.N i)

/-- What a finished location has in full. Workers write what they are asked for, and an output
node passes its values to its graph. -/
inductive Owed : Loc → PortValues → Prop
  | scope {c : Loc} {F : Frame V} (h : Scope W g₀ env₀ c F) : Owed c F.outs
  | node {c : Loc} {F : Frame V} {i : Nat} {node : NodeDef V} {outs : PortValues}
      (h : NodeAt W g₀ env₀ c F i node) (hf : ∀ name, node.kind ≠ .function name)
      (ho : node.kind.isOutput = false) (hm : NodeMeans W F.graph F.env i outs) : Owed (c.N i) outs

def FunctionAt (loc : Loc) (node : NodeDef V) (outs : PortValues) : Prop :=
  ∃ (c : Loc) (F : Frame V) (i : Nat) (name : String), loc = c.N i ∧ NodeAt W g₀ env₀ c F i node ∧
    node.kind = .function name ∧ NodeMeans W F.graph F.env i outs

def LoopAt (loc : Loc) (bs : Bytes) (body : GraphData V) (start : PortValues) : Prop :=
  ∃ (c : Loc) (F : Frame V) (i : Nat) (node : NodeDef V) (port : PortID), loc = c.N i ∧
    NodeAt W g₀ env₀ c F i node ∧ LoopData W F node port bs body start

def MapAt (loc : Loc) (family : List (PortID × Bytes)) : Prop :=
  ∃ (c : Loc) (F : Frame V) (i : Nat) (node : NodeDef V) (bs : Bytes) (body : GraphData V),
    loc = c.N i ∧ NodeAt W g₀ env₀ c F i node ∧ MapData W F node bs body family

/-- What the output node of a graph waits for. -/
def OutputEdge (g : GraphData V) (r : ValueRef) : Prop :=
  ∃ (o : Nat) (node : NodeDef V), g.graphOutputIdx = some (o : Int) ∧ g.nodes[o]? = some node ∧
    r ∈ node.edges ∧ 0 ≤ r.1

structure Sound (s : Storage V) : Prop where
  recorded : ∀ loc p bs, s.outputs.get? (loc, p) = some bs →
    ∃ outs, Holds W g₀ env₀ loc outs ∧ outs.get? p = some bs
  placed : ∀ loc, s.isNodeStarted loc = true → Place W g₀ env₀ loc
  entered : ∀ c F, Scope W g₀ env₀ c F → s.isNodeStarted c = true → Complete s (c.N (-1)) F.env
  loops : ∀ loc bs body start, LoopAt W g₀ env₀ loc bs body start → s.isNodeStarted loc = true →
    Complete s (loc.N (-1)) start ∧ s.isNodeStarted (loc.L 0) = true
  maps : ∀ loc family, MapAt W g₀ env₀ loc family → s.isNodeStarted loc = true →
    (∀ e ∈ family, ∀ k, pyInt (lastPart e.1) = .ok k → s.isNodeStarted (loc.M k) = true) ∧
      (family = [] → loc ∈ s.finished)
  finished : ∀ loc outs, Owed W g₀ env₀ loc outs → loc ∈ s.finished → Complete s loc outs
  functions : ∀ loc node outs, FunctionAt W g₀ env₀ loc node outs → loc ∈ s.finished →
    ∀ p ∈ portsOf node.outputs, readPort (s.valuesAt loc) p = readPort outs p
  outputs : ∀ c F, Scope W g₀ env₀ c F → c ∈ s.finished → ∀ r, OutputEdge F.graph r →
    c.N r.1 ∈ s.finished

end Invariant

section Rules

variable {W : Interpretation V} {g₀ : GraphData V} {env₀ : PortValues} {s s' : Storage V} {loc : Loc}
  {outs : PortValues}

theorem Owed.holds (h : Owed W g₀ env₀ loc outs) : Holds W g₀ env₀ loc outs := by
  cases h with
  | scope h => exact .scope h
  | node h _ _ hm => exact .node h hm

/-- What is recorded in full is what is there. -/
theorem Sound.values (hs : Sound W g₀ env₀ s) (hh : Holds W g₀ env₀ loc outs)
    (hc : Complete s loc outs) (p : PortID) : (s.valuesAt loc).get? p = outs.get? p := by
  rw [Storage.get?_valuesAt]
  cases ho : outs.get? p with
  | some bs => exact hc p bs ho
  | none =>
    cases hr : s.outputs.get? (loc, p) with
    | none => rfl
    | some bs =>
      obtain ⟨outs', hh', ho'⟩ := hs.recorded loc p bs hr
      rw [hh'.unique hh, ho] at ho'
      cases ho'

/-- Values that belong there are written to a location. -/
theorem Sound.put (hs : Sound W g₀ env₀ s) (hdefs : s'.nodeDefs = s.nodeDefs)
    (hfin : s'.finished = s.finished) {m : PortValues}
    (hother : ∀ k : Loc × PortID, k.1 ≠ loc → s'.outputs.get? k = s.outputs.get? k)
    (hin : ∀ p, s'.outputs.get? (loc, p) = (m.get? p).or (s.outputs.get? (loc, p)))
    (hh : Holds W g₀ env₀ loc outs) (hm : ∀ p bs, m.get? p = some bs → outs.get? p = some bs)
    (hf : ∀ node outs, FunctionAt W g₀ env₀ loc node outs → loc ∉ s.finished) :
    Sound W g₀ env₀ s' := by
  have hstarted : ∀ l, s'.isNodeStarted l = s.isNodeStarted l := fun l => by
    unfold Storage.isNodeStarted
    rw [hdefs]
  have hextends : ∀ (k : Loc × PortID) bs, s.outputs.get? k = some bs →
      s'.outputs.get? k = some bs := by
    rintro ⟨l, p⟩ bs hk
    by_cases hl : l = loc
    · subst hl
      rw [hin]
      cases hmp : m.get? p with
      | none => exact hk
      | some bs' =>
        obtain ⟨outs', hh', ho'⟩ := hs.recorded l p bs hk
        rw [hh'.unique hh, hm p bs' hmp] at ho'
        exact ho'
    · rw [hother (l, p) hl]
      exact hk
  have hcomplete : ∀ {l : Loc} {outs : PortValues}, Complete s l outs → Complete s' l outs :=
    fun h p bs hp => hextends _ bs (h p bs hp)
  refine ⟨?_, ?_, ?_, ?_, ?_, ?_, ?_, ?_⟩
  · intro l p bs hk
    by_cases hl : l = loc
    · subst hl
      rw [hin] at hk
      cases hmp : m.get? p with
      | none =>
        rw [hmp, Option.none_or] at hk
        exact hs.recorded l p bs hk
      | some bs' =>
        rw [hmp, Option.some_or] at hk
        exact ⟨outs, hh, hk ▸ hm p bs' hmp⟩
    · rw [hother (l, p) hl] at hk
      exact hs.recorded l p bs hk
  · exact fun l hl => hs.placed l (hstarted l ▸ hl)
  · exact fun c F hc hl => hcomplete (hs.entered c F hc (hstarted c ▸ hl))
  · intro l bs body start hl hd
    obtain ⟨h1, h2⟩ := hs.loops l bs body start hl (hstarted l ▸ hd)
    exact ⟨hcomplete h1, (hstarted _).trans h2⟩
  · intro l family hl hd
    obtain ⟨h1, h2⟩ := hs.maps l family hl (hstarted l ▸ hd)
    exact ⟨fun e he k hk => (hstarted _).trans (h1 e he k hk), fun hnil => hfin ▸ h2 hnil⟩
  · exact fun l outs ho hl => hcomplete (hs.finished l outs ho (hfin ▸ hl))
  · intro l node outs hl hd p hp
    have hne : l ≠ loc := by
      rintro rfl
      exact hf node outs hl (hfin ▸ hd)
    rw [← hs.functions l node outs hl (hfin ▸ hd) p hp]
    refine readPort_congr (fun k => ?_) p
    rw [Storage.get?_valuesAt, Storage.get?_valuesAt, hother (l, k) hne]
  · exact fun c F hc hd r hr => hfin ▸ hs.outputs c F hc (hfin ▸ hd) r hr

/-- A place is marked as started. -/
theorem Sound.define (hs : Sound W g₀ env₀ s) (hd : StartedAt loc s s') (hp : Place W g₀ env₀ loc)
    (he : ∀ F, Scope W g₀ env₀ loc F → Complete s (loc.N (-1)) F.env)
    (hl : ∀ bs body start, LoopAt W g₀ env₀ loc bs body start →
      Complete s (loc.N (-1)) start ∧ s.isNodeStarted (loc.L 0) = true)
    (hm : ∀ family, MapAt W g₀ env₀ loc family →
      (∀ e ∈ family, ∀ k, pyInt (lastPart e.1) = .ok k → s.isNodeStarted (loc.M k) = true) ∧
        (family = [] → loc ∈ s.finished)) :
    Sound W g₀ env₀ s' := by
  obtain ⟨hout, hfin, hstarted⟩ := hd
  have hcases : ∀ {l}, s'.isNodeStarted l = true → l = loc ∨ s.isNodeStarted l = true := fun h => by
    simpa [hstarted] using h
  have hkept : ∀ {l}, s.isNodeStarted l = true → s'.isNodeStarted l = true := fun h => by
    simp [hstarted, h]
  have hcomplete : ∀ {l outs}, Complete s l outs → Complete s' l outs := fun h p bs hp => by
    rw [hout]
    exact h p bs hp
  refine ⟨fun l p bs hl => hs.recorded l p bs (hout ▸ hl), ?_, ?_, ?_, ?_,
    fun l outs ho hl => hcomplete (hs.finished l outs ho (hfin ▸ hl)), ?_,
    fun c F hc hl r hr => hfin ▸ hs.outputs c F hc (hfin ▸ hl) r hr⟩
  · intro l hd
    rcases hcases hd with rfl | hd
    · exact hp
    · exact hs.placed l hd
  · intro c F hc hd
    rcases hcases hd with rfl | hd
    · exact hcomplete (he F hc)
    · exact hcomplete (hs.entered c F hc hd)
  · intro l bs body start hl' hd
    rcases hcases hd with rfl | hd
    · exact (hl bs body start hl').imp hcomplete hkept
    · exact (hs.loops l bs body start hl' hd).imp hcomplete hkept
  · intro l family hm' hd
    rcases hcases hd with rfl | hd
    · exact (hm family hm').imp (fun h e he k hk => hkept (h e he k hk)) fun h hnil => hfin ▸ h hnil
    · exact (hs.maps l family hm' hd).imp (fun h e he k hk => hkept (h e he k hk))
        fun h hnil => hfin ▸ h hnil
  · intro l node outs hl hd p hp
    rw [← hs.functions l node outs hl (hfin ▸ hd) p hp]
    unfold Storage.valuesAt Storage.readOutputPorts
    rw [hout]

/-- A location that has all of its values is marked as finished. -/
theorem Sound.mark (hs : Sound W g₀ env₀ s)
    (ho : ∀ outs, Owed W g₀ env₀ loc outs → Complete s loc outs)
    (hf : ∀ node outs, FunctionAt W g₀ env₀ loc node outs →
      ∀ p ∈ portsOf node.outputs, readPort (s.valuesAt loc) p = readPort outs p)
    (he : ∀ F, Scope W g₀ env₀ loc F → ∀ r, OutputEdge F.graph r → loc.N r.1 ∈ s.finished) :
    Sound W g₀ env₀ (s.markNodeFinished loc) := by
  have hcases : ∀ {l}, l ∈ (s.markNodeFinished loc).finished → l = loc ∨ l ∈ s.finished :=
    Finset.mem_insert.1
  have hkept : ∀ {l}, l ∈ s.finished → l ∈ (s.markNodeFinished loc).finished :=
    Finset.mem_insert_of_mem
  refine ⟨hs.recorded, hs.placed, hs.entered, hs.loops, ?_, ?_, ?_, ?_⟩
  · intro l family hm hd
    exact (hs.maps l family hm hd).imp_right fun h hnil => hkept (h hnil)
  · intro l outs hl hd
    rcases hcases hd with rfl | hd
    · exact ho outs hl
    · exact hs.finished l outs hl hd
  · intro l node outs hl hd
    rcases hcases hd with rfl | hd
    · exact hf node outs hl
    · exact hs.functions l node outs hl hd
  · intro c F hc hd r hr
    rcases hcases hd with rfl | hd
    · exact hkept (he F hc r hr)
    · exact hkept (hs.outputs c F hc hd r hr)

/-! ## What is read -/

variable {c : Loc} {F : Frame V} {i : Nat} {node : NodeDef V}

/-- The inputs of a graph that is started are there. -/
theorem Sound.scope_values (hs : Sound W g₀ env₀ s) (hc : Scope W g₀ env₀ c F)
    (hstart : s.isNodeStarted c = true) (port : PortID) :
    readPort (s.valuesAt (c.N (-1))) port = readPort F.env port :=
  readPort_congr (hs.values (.inputs hc) (hs.entered c F hc hstart)) port

/-- A finished node has what its graph asks of it. -/
theorem Sound.node_values (hs : Sound W g₀ env₀ s) (h : NodeAt W g₀ env₀ c F i node)
    (ho : node.kind.isOutput = false) (hm : NodeMeans W F.graph F.env i outs)
    (hfin : c.N i ∈ s.finished) {port : PortID} (hport : port ∈ portsOf node.outputs) :
    readPort (s.valuesAt (c.N i)) port = readPort outs port := by
  by_cases hf : ∃ name, node.kind = .function name
  · obtain ⟨name, hk⟩ := hf
    exact hs.functions _ node outs ⟨c, F, i, name, rfl, h, hk, hm⟩ hfin port hport
  · have howed : Owed W g₀ env₀ (c.N i) outs := .node h (fun name hk => hf ⟨name, hk⟩) ho hm
    exact readPort_congr (hs.values howed.holds (hs.finished _ _ howed hfin)) port

/-- What a node needs is read as it is meant, once it is finished. -/
theorem Sound.read (hw : AllWalkable W g₀ env₀) (hs : Sound W g₀ env₀ s)
    (h : NodeAt W g₀ env₀ c F i node) (hstart : s.isNodeStarted c = true) {r : ValueRef} {a : Arg}
    (hr : Needs W F.graph F.env node r) (ha : Means W F.graph F.env r a)
    (hfin : 0 ≤ r.1 → c.N r.1 ∈ s.finished) :
    readPort (s.valuesAt (c.N r.1)) r.2 = some a := by
  obtain ⟨idx, port⟩ := r
  rcases means_cases ha with ⟨hi, hread⟩ | ⟨j, outs, hi, hm, hread⟩
  · have hi : idx = -1 := hi
    subst hi
    exact (hs.scope_values h.scope hstart port).trans hread
  · have hi : idx = (j : Int) := hi
    subst hi
    obtain ⟨source, hsource, ho, hport⟩ := h.needs hw hr
    exact (hs.node_values hsource ho hm (hfin (Int.natCast_nonneg j)) hport).trans hread

theorem Sound.readValue (hw : AllWalkable W g₀ env₀) (hs : Sound W g₀ env₀ s)
    (h : NodeAt W g₀ env₀ c F i node) (hstart : s.isNodeStarted c = true) {r : ValueRef} {bs : Bytes}
    (hr : Needs W F.graph F.env node r) (ha : Means W F.graph F.env r (.value bs))
    (hfin : 0 ≤ r.1 → c.N r.1 ∈ s.finished) : s.outputs.get? (c.N r.1, r.2) = some bs :=
  Storage.outputs_of_readPort_value (hs.read hw h hstart hr ha hfin)

end Rules

end Tierkreis.Controller
