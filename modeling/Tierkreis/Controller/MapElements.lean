import Tierkreis.Controller.MapNode
import Tierkreis.Lib.StateExcept

/-!
# The elements of a map node

A map node over unfolded lists starts one evaluation for each element, feeds it
the matching element of every list, and collects its outputs under the name of
the element. A map over the outputs of another map does not start.
-/

namespace Tierkreis.Controller

open Lib

variable {V : Type}

/-! ## What a map is for -/

/-- The name of an output, when the port stands for that output of the elements of a map. -/
def mappedOutput (port : PortID) : Option PortID :=
  if "-*".toList <:+ port.toList then some (String.ofList (port.toList.take (port.length - 2)))
  else none

/-- The port that holds the element of the given number. -/
def elementOf (port : PortID) (e : Nat) : PortID :=
  if port = "*" then toString e
  else
    match mappedOutput port with
    | some output => outputPort output (toString e)
    | none => port

/-- The elements behind a port are numbered up to `n`, when it stands for elements. -/
structure HasElements (s : Storage V) (loc : Loc) (port : PortID) (n : Nat) : Prop where
  unfolded : port = "*" → ∀ p, p ∈ s.readOutputPorts loc ↔ ∃ e < n, p = toString e
  mapped : ∀ output, port = output ++ "-*" →
    (∀ e < n, outputPort output (toString e) ∈ s.readOutputPorts loc) ∧
      ∀ p ∈ s.readOutputPorts loc, ∃ o, ∃ e < n, p = outputPort o (toString e)

section

variable (decodeGraph : Bytes → Except PyError (GraphData V))
  (walkNode : Loc → Int → GraphData V → Ctl V (WalkResult V))
  (parent : Loc) (idx : Int) (body : ValueRef) (node : NodeDef V) (n : Nat) (g : GraphData V)

/-- A map node whose inputs are there and that has not been started. -/
structure MapReady (s : Storage V) : Prop where
  root : parent.dash = true
  kind : node.kind = .map body
  elements : ∀ e ∈ node.inputs.toList, HasElements s (parent.N e.2.1) e.2.2 n
  unfinished : parent.N idx ∉ s.finished
  unstarted : ∀ i, s.nodeDefs.get? ((parent.N idx).M i) = none
  unfed : ∀ i p, s.outputs.get? (((parent.N idx).M i).N (-1), p) = none
  bodyGraph : ∃ bs, s.outputs.get? (parent.N body.1, body.2) = some bs ∧ decodeGraph bs = .ok g
  output : ∃ out node, g.outputIdx = .ok out ∧ g.nodeAt out = .ok node

/-- One evaluation for each element, fed with the matching elements. -/
structure MapStarted (s s' : Storage V) : Prop where
  finished : parent.N idx ∈ s'.finished ↔ n = 0
  evals : ∀ i, (s'.nodeDefs.get? ((parent.N idx).M i)).isSome ↔ ∃ e < n, i = (e : Int)
  inputs : ∀ e < n, ∀ k ref, node.inputs.get? k = some ref →
    s'.outputs.get? (((parent.N idx).M (e : Int)).N (-1), k) =
      s.outputs.get? (parent.N ref.1, elementOf ref.2 e)
  body : ∀ e < n, s'.outputs.get? (((parent.N idx).M (e : Int)).N (-1), "body") =
    s.outputs.get? (parent.N body.1, body.2)

/-- A later state: nothing is unwritten, and the nodes that elements come from stay as they are. -/
structure Later (s s' : Storage V) : Prop where
  outputs : ∀ k bs, s.outputs.get? k = some bs → s'.outputs.get? k = some bs
  sources : ∀ e ∈ node.inputs.toList, ∀ p,
    s'.outputs.get? (parent.N e.2.1, p) = s.outputs.get? (parent.N e.2.1, p)
  finished : s.finished ⊆ s'.finished

/-- The unfinished elements are walked once each; when there are none, the outputs of each
element are linked under its number. -/
def MapWalked (s : Storage V) : Prop :=
  let loc := parent.N idx
  ∃ elements : List Int, elements.Perm ((List.range n).map Int.ofNat) ∧
    let unfinished := elements.filter fun i => !s.isNodeFinished (loc.M i)
    (unfinished ≠ [] →
      walkMap decodeGraph walkNode parent idx node s = walkElements walkNode loc g unfinished {} s) ∧
    (unfinished = [] → ∃ s', walkMap decodeGraph walkNode parent idx node s = .ok ({}, s') ∧
      loc ∈ s'.finished ∧
      ∀ out outputNode, g.outputIdx = .ok out → g.nodeAt out = .ok outputNode →
        ∀ output ∈ outputNode.inputs, ∀ e < n, ∀ bs,
          s.outputs.get? (loc.M (e : Int), output) = some bs →
            s'.outputs.get? (loc, outputPort output (toString e)) = some bs)

/-- The map does what it is for: from its start on, in every later state. -/
structure MapsElements (s : Storage V) : Prop where
  start : ∃ s', startMap (parent.N idx) body node s = .ok ((), s') ∧
    MapStarted parent idx body node n s s'
  walk : ∀ s', startMap (parent.N idx) body node s = .ok ((), s') →
    ∀ s'', Later parent node s' s'' → s''.isNodeFinished (parent.N idx) = false →
      MapWalked decodeGraph walkNode parent idx node n g s''

/-- Some port is that of an unfolded list, none is that of another map, and none takes the place
of the body. -/
structure MapFeeds (s : Storage V) : Prop where
  unfolded : ∃ e ∈ node.inputs.toList, e.2.2 = "*"
  chained : 0 < n → ∀ e ∈ node.inputs.toList, ∀ output, e.2.2 ≠ output ++ "-*"
  body : ∀ ref, node.inputs.get? "body" = some ref → ∀ e < n,
    s.outputs.get? (parent.N ref.1, elementOf ref.2 e) = s.outputs.get? (parent.N body.1, body.2)

end

/-! ## Names of elements -/

theorem mappedOutput_append (output : PortID) : mappedOutput (output ++ "-*") = some output := by
  have hlist : (output ++ "-*").toList = output.toList ++ ['-', '*'] := by
    rw [String.toList_append]
    rfl
  have hlen : (output ++ "-*").length - 2 = output.toList.length := by
    rw [← String.length_toList, hlist, List.length_append]
    rfl
  unfold mappedOutput
  rw [hlist, if_pos (show "-*".toList <:+ _ from List.suffix_append output.toList ['-', '*']), hlen,
    List.take_left' rfl, String.ofList_toList]

theorem eq_of_mappedOutput {port output : PortID} (h : mappedOutput port = some output) :
    port = output ++ "-*" := by
  unfold mappedOutput at h
  split at h
  · rename_i hsuffix
    obtain ⟨cs, hcs⟩ := hsuffix
    have hlen : port.length - 2 = cs.length := by
      rw [← String.length_toList, ← hcs, List.length_append]
      rfl
    rw [hlen, ← hcs, List.take_left' rfl] at h
    cases h
    refine String.toList_inj.1 (hcs.symm.trans ?_)
    rw [String.toList_append, @String.toList_ofList cs]
  · cases h

theorem append_star_ne (output : PortID) : output ++ "-*" ≠ "*" := by
  intro h
  have hlen := congrArg String.length h
  rw [String.length_append] at hlen
  change output.length + 2 = 1 at hlen
  omega

theorem ne_of_mappedOutput {port : PortID} (h : mappedOutput port = none) (output : PortID) :
    port ≠ output ++ "-*" := fun hp => by
  rw [hp, mappedOutput_append] at h
  cases h

theorem elementOf_mapped (output : PortID) (e : Nat) :
    elementOf (output ++ "-*") e = outputPort output (toString e) := by
  rw [elementOf, if_neg (append_star_ne output), mappedOutput_append]

theorem elementOf_unmapped {port : PortID} (h : ∀ output, port ≠ output ++ "-*") (e : Nat) :
    elementOf port e = elementPort port (toString e) := by
  unfold elementOf elementPort
  split
  · rfl
  · cases hm : mappedOutput port with
    | none => rfl
    | some output => exact absurd (eq_of_mappedOutput hm) (h output)

theorem toList_outputPort (output j : PortID) :
    (outputPort output j).toList = output.toList ++ '-' :: j.toList := by
  rw [outputPort, String.toList_append, String.toList_append, List.append_assoc]
  rfl

theorem lastPart_outputPort (output : PortID) {j : PortID} (h : '-' ∉ j.toList) :
    lastPart (outputPort output j) = j.toList := by
  have hj : j.toList.splitOn '-' = [j.toList] := by
    rw [List.splitOn_eq_splitOnP]
    refine List.splitOnP_eq_singleton fun c hc => ?_
    rw [beq_eq_false_iff_ne]
    exact fun heq => h (heq ▸ hc)
  rw [lastPart, toList_outputPort, List.splitOn_append_cons_self, hj, List.getLastD_concat]

theorem dash_notMem_toString (e : Nat) : '-' ∉ (toString e).toList := fun h =>
  absurd (Decimal.isDigit_of_mem_repr h) (by decide)

/-- Outputs and numbers can be told apart in the port of an element. -/
theorem outputPort_inj {output output' : PortID} {e e' : Nat}
    (h : outputPort output (toString e) = outputPort output' (toString e')) :
    output = output' ∧ e = e' := by
  have hlast := congrArg lastPart h
  rw [lastPart_outputPort output (dash_notMem_toString e),
    lastPart_outputPort output' (dash_notMem_toString e')] at hlast
  have he : e = e' := Decimal.repr_inj (String.toList_inj.1 hlast)
  subst he
  have hlist := congrArg String.toList h
  rw [toList_outputPort, toList_outputPort] at hlist
  exact ⟨String.toList_inj.1 (List.append_cancel_right hlist), rfl⟩

/-- No element has the port that refers to all of them. -/
theorem star_ne_outputPort (output o : PortID) (e : Nat) :
    output ++ "-*" ≠ outputPort o (toString e) := by
  intro h
  have hstar : output ++ "-*" = outputPort output "*" := by
    rw [outputPort, String.append_assoc]
    rfl
  have hlast := congrArg lastPart (hstar.symm.trans h)
  rw [lastPart_outputPort output (by decide), lastPart_outputPort o (dash_notMem_toString e)] at hlast
  have hmem : '*' ∈ (toString e).toList := hlast ▸ List.mem_singleton.2 rfl
  exact absurd (Decimal.isDigit_of_mem_repr hmem) (by decide)

/-! ## The start of a map -/

section

variable {decodeGraph : Bytes → Except PyError (GraphData V)}
  {walkNode : Loc → Int → GraphData V → Ctl V (WalkResult V)}
  {parent : Loc} {idx : Int} {body : ValueRef} {node : NodeDef V} {n : Nat} {g : GraphData V}
  {s : Storage V}

theorem firstRef_eq_ok {inputs : HashMap PortID ValueRef} (h : ∃ e ∈ inputs.toList, e.2.2 = "*") :
    ∃ ref, firstRef inputs = .ok ref ∧ ref.2 = "*" ∧ ∃ k, (k, ref) ∈ inputs.toList := by
  unfold firstRef
  cases hf : inputs.toList.find? fun e => e.2.2 = "*" with
  | none =>
    obtain ⟨e, he, hstar⟩ := h
    have := List.find?_eq_none.1 hf e he
    simp [hstar] at this
  | some e =>
    refine ⟨e.2, rfl, ?_, e.1, List.mem_of_find?_eq_some hf⟩
    simpa using List.find?_some hf

theorem firstRef_eq_error {inputs : HashMap PortID ValueRef}
    (h : ¬ ∃ e ∈ inputs.toList, e.2.2 = "*") : firstRef inputs = .error .stopIteration := by
  have hnone : inputs.toList.find? (fun e => e.2.2 = "*") = none :=
    List.find?_eq_none.2 fun e he hstar => h ⟨e, he, of_decide_eq_true hstar⟩
  unfold firstRef
  rw [hnone]

/-- The elements of a map, from the ports of its first list. -/
theorem elements_of_ready (hr : ∀ e ∈ node.inputs.toList, HasElements s (parent.N e.2.1) e.2.2 n)
    (h : ∃ e ∈ node.inputs.toList, e.2.2 = "*") :
    ∃ ref elements, firstRef node.inputs = .ok ref ∧
      outputsIter s (parent.N ref.1) = .ok elements ∧ (elements.map Prod.fst).Nodup ∧
      ∀ x, x ∈ elements ↔ ∃ e < n, x = ((e : Int), toString e) := by
  obtain ⟨ref, href, hstar, k, hk⟩ := firstRef_eq_ok h
  obtain ⟨elements, helements, hnodup, hmem⟩ := outputsIter_unfolded ((hr _ hk).unfolded hstar)
  exact ⟨ref, elements, href, helements, hnodup, hmem⟩

/-- The state that a map is started from: its definition is written, and without elements it is
finished. -/
def begun (parent : Loc) (idx : Int) (node : NodeDef V) (n : Nat) (s : Storage V) : Storage V :=
  if n = 0 then (s.writeNodeDef (parent.N idx) node).markNodeFinished (parent.N idx)
  else s.writeNodeDef (parent.N idx) node

theorem outputs_begun : (begun parent idx node n s).outputs = s.outputs := by
  unfold begun
  split
  · rfl
  · rfl

theorem nodeDefs_begun (i : Int) :
    (begun parent idx node n s).nodeDefs.get? ((parent.N idx).M i) =
      s.nodeDefs.get? ((parent.N idx).M i) := by
  have hne : (parent.N idx).M i ≠ parent.N idx := fun h => by
    have hlen := congrArg (fun l : Loc => l.tail.length) h
    simp only [Loc.N, Loc.M, Loc.length_append] at hlen
    omega
  unfold begun
  split
  · exact HashMap.get?_insert_ne _ _ hne
  · exact HashMap.get?_insert_ne _ _ hne

theorem startMap_eq (hr : MapReady decodeGraph parent idx body node n g s)
    (h : ∃ e ∈ node.inputs.toList, e.2.2 = "*") :
    ∃ elements : List (Int × PortID), (elements.map Prod.fst).Nodup ∧
      (∀ x, x ∈ elements ↔ ∃ e < n, x = ((e : Int), toString e)) ∧
      startMap (parent.N idx) body node s = .ok ((),
        elements.foldl (startElement parent (parent.N idx) body node) (begun parent idx node n s)) := by
  obtain ⟨ref, elements, href, helements, hnodup, hmem⟩ := elements_of_ready hr.elements h
  refine ⟨elements, hnodup, hmem, ?_⟩
  have hiter : outputsIter (s.writeNodeDef (parent.N idx) node) (parent.N ref.1) = .ok elements :=
    helements
  have hempty : elements.isEmpty = true ↔ n = 0 := by
    rw [List.isEmpty_iff, List.eq_nil_iff_forall_not_mem]
    constructor
    · intro hnone
      by_contra hn
      exact hnone _ ((hmem _).2 ⟨0, Nat.pos_of_ne_zero hn, rfl⟩)
    · rintro rfl x hx
      obtain ⟨e, he, -⟩ := (hmem x).1 hx
      exact absurd he (Nat.not_lt_zero e)
  unfold startMap
  refine StateExcept.modify_bind_eq_ok.2 ?_
  rw [Loc.parent_N hr.root]
  refine StateExcept.lift_bind_eq_ok.2 ⟨ref, href, StateExcept.get_bind_eq_ok.2 ?_⟩
  refine StateExcept.lift_bind_eq_ok.2 ⟨elements, hiter, ?_⟩
  by_cases hn : n = 0
  · rw [if_pos (hempty.2 hn), begun, if_pos hn]
    rfl
  · rw [if_neg fun he => hn (hempty.1 he), begun, if_neg hn]
    rfl

theorem startMap_fails (hroot : parent.dash = true) (h : ¬ ∃ e ∈ node.inputs.toList, e.2.2 = "*") :
    startMap (parent.N idx) body node s = .error .stopIteration := by
  unfold startMap
  rw [StateExcept.modify_bind, Loc.parent_N hroot]
  show ((liftM (firstRef node.inputs) : Ctl V ValueRef) >>= _) _ = _
  rw [firstRef_eq_error h]
  rfl

/-- The inputs of an element, where no input takes the place of the body. -/
theorem started_inputs (hr : MapReady decodeGraph parent idx body node n g s)
    {elements : List (Int × PortID)} (hnodup : (elements.map Prod.fst).Nodup) {e : Nat}
    (he : ((e : Int), toString e) ∈ elements) {k : PortID} {src : Loc × PortID}
    (hsrc : (evalInputs parent body node.inputs (toString e)).get? k = some src) :
    (elements.foldl (startElement parent (parent.N idx) body node)
      (begun parent idx node n s)).outputs.get? (((parent.N idx).M (e : Int)).N (-1), k) =
      s.outputs.get? src := by
  obtain ⟨hin, -⟩ :=
    @startElements_spec V parent idx body node elements (begun parent idx node n s) hnodup
  refine (hin _ he k src hsrc).trans ?_
  rw [outputs_begun, hr.unfed, Option.or_none]

theorem mapStarted_of_feeds (hr : MapReady decodeGraph parent idx body node n g s)
    (hf : MapFeeds parent body node n s) {elements : List (Int × PortID)}
    (hnodup : (elements.map Prod.fst).Nodup)
    (hmem : ∀ x, x ∈ elements ↔ ∃ e < n, x = ((e : Int), toString e)) :
    MapStarted parent idx body node n s (elements.foldl (startElement parent (parent.N idx) body node)
      (begun parent idx node n s)) := by
  obtain ⟨-, -, hdefs, hfin⟩ :=
    @startElements_spec V parent idx body node elements (begun parent idx node n s) hnodup
  refine ⟨?_, ?_, ?_, ?_⟩
  · refine (iff_of_eq (congrArg (parent.N idx ∈ ·) hfin)).trans ?_
    unfold begun
    by_cases hn : n = 0
    · simp [hn, Storage.markNodeFinished]
    · simp [hn, hr.unfinished]
  · intro i
    refine (iff_of_eq (congrArg (fun d => d.isSome = true) (hdefs ((parent.N idx).M i)))).trans ?_
    by_cases hi : ∃ e ∈ elements, (parent.N idx).M i = (parent.N idx).M e.1
    · rw [if_pos hi]
      obtain ⟨x, hx, heq⟩ := hi
      obtain ⟨e, he, rfl⟩ := (hmem x).1 hx
      exact ⟨fun _ => ⟨e, he, Loc.M_inj heq⟩, fun _ => rfl⟩
    · rw [if_neg hi, nodeDefs_begun, hr.unstarted]
      refine ⟨fun h => (by cases h), ?_⟩
      rintro ⟨e, he, rfl⟩
      exact absurd ⟨_, (hmem _).2 ⟨e, he, rfl⟩, rfl⟩ hi
  · intro e he k ref href
    have hx := (hmem _).2 ⟨e, he, rfl⟩
    have hsrc := get?_evalInputs parent body node.inputs (toString e) k
    rw [href] at hsrc
    rw [started_inputs hr hnodup hx hsrc, elementOf_unmapped]
    exact hf.chained (by omega) (k, ref) (HashMap.get?_eq_some_iff.1 href)
  · intro e he
    have hx := (hmem _).2 ⟨e, he, rfl⟩
    have hsrc := get?_evalInputs parent body node.inputs (toString e) "body"
    cases hb : node.inputs.get? "body" with
    | none =>
      rw [hb] at hsrc
      exact started_inputs hr hnodup hx hsrc
    | some ref =>
      rw [hb] at hsrc
      rw [started_inputs hr hnodup hx hsrc, ← hf.body ref hb e he, elementOf_unmapped]
      exact hf.chained (by omega) ("body", ref) (HashMap.get?_eq_some_iff.1 hb)

/-- A start that does what it should needs the ports of a list, and nothing of another map. -/
theorem feeds_of_mapStarted (hr : MapReady decodeGraph parent idx body node n g s) {s' : Storage V}
    (hstart : startMap (parent.N idx) body node s = .ok ((), s'))
    (hs : MapStarted parent idx body node n s s') : MapFeeds parent body node n s := by
  have hunfolded : ∃ e ∈ node.inputs.toList, e.2.2 = "*" := by
    by_contra h
    rw [startMap_fails hr.root h] at hstart
    cases hstart
  obtain ⟨elements, hnodup, hmem, heq⟩ := startMap_eq hr hunfolded
  rw [hstart] at heq
  cases heq
  refine ⟨hunfolded, ?_, ?_⟩
  · intro hn e he output hport
    obtain ⟨k, i, port⟩ := e
    have hport : port = output ++ "-*" := hport
    subst hport
    obtain ⟨hsome, hall⟩ := (hr.elements _ he).mapped output rfl
    have hget := HashMap.get?_eq_some_iff.2 he
    have hfed := hs.inputs 0 hn k _ hget
    have hsrc := get?_evalInputs parent body node.inputs (toString 0) k
    rw [hget] at hsrc
    simp only [elementPort, if_neg (append_star_ne output)] at hsrc
    rw [started_inputs hr hnodup ((hmem _).2 ⟨0, hn, rfl⟩) hsrc, elementOf_mapped] at hfed
    have hstar : (s.outputs.get? (parent.N i, outputPort output (toString 0))).isSome :=
      s.mem_readOutputPorts.1 (hsome 0 hn)
    rw [← hfed] at hstar
    obtain ⟨o, e, -, heq⟩ := hall _ (s.mem_readOutputPorts.2 hstar)
    exact star_ne_outputPort output o e heq
  · intro ref href e he
    rw [← hs.inputs e he "body" ref href, hs.body e he]

/-! ## The walk of a map -/

/-- The links of a finished map. -/
theorem get?_linkElements {elements : List (Int × PortID)} (hnodup : (elements.map Prod.fst).Nodup)
    (hmem : ∀ x, x ∈ elements ↔ ∃ e < n, x = ((e : Int), toString e)) {loc : Loc}
    {outputs : List PortID} (hout : outputs.Nodup) {output : PortID} (ho : output ∈ outputs)
    {e : Nat} (he : e < n) {bs : Bytes} (hbs : s.outputs.get? (loc.M (e : Int), output) = some bs) :
    (linkElements loc outputs elements s).outputs.get? (loc, outputPort output (toString e)) =
      some bs := by
  let links := elements.flatMap fun e => outputs.map fun output =>
    (outputPort output e.2, loc.M e.1, output)
  have hne : ∀ i, loc.M i ≠ loc := fun i h => by
    have hlen := congrArg (fun l : Loc => l.tail.length) h
    simp only [Loc.M, Loc.length_append] at hlen
    omega
  have hports : (links.map Prod.fst).Nodup := by
    rw [List.map_flatMap]
    simp only [List.map_map]
    refine List.nodup_flatMap.2 ⟨fun x hx => ?_, ?_⟩
    · obtain ⟨e, -, rfl⟩ := (hmem x).1 hx
      exact hout.map fun o o' h => (outputPort_inj h).1
    · refine List.Pairwise.imp_of_mem ?_ (List.pairwise_map.1 hnodup)
      intro x y hx hy hxy p hpx hpy
      obtain ⟨e, -, rfl⟩ := (hmem x).1 hx
      obtain ⟨e', -, rfl⟩ := (hmem y).1 hy
      obtain ⟨o, -, rfl⟩ := List.mem_map.1 hpx
      obtain ⟨o', -, hp⟩ := List.mem_map.1 hpy
      exact hxy (congrArg Int.ofNat (outputPort_inj hp).2.symm)
  have hin : (outputPort output (toString e), loc.M (e : Int), output) ∈ links :=
    List.mem_flatMap.2 ⟨_, (hmem _).2 ⟨e, he, rfl⟩, List.mem_map.2 ⟨output, ho, rfl⟩⟩
  have hsource : ∀ x ∈ links, x.2.1 ≠ loc := by
    intro x hx
    obtain ⟨y, -, hx⟩ := List.mem_flatMap.1 hx
    obtain ⟨o, -, rfl⟩ := List.mem_map.1 hx
    exact hne y.1
  have hfound := s.found_of_mem hports hin
  have hget := (Storage.get?_pipe (s := s) hsource).2 (outputPort output (toString e))
  rw [linkElements_eq, hget, hfound, hbs, Option.some_or]

theorem walkMap_eq {ref : ValueRef} {elements : List (Int × PortID)} {bs : Bytes}
    (hfin : s.isNodeFinished (parent.N idx) = false) (href : firstRef node.inputs = .ok ref)
    (helements : outputsIter s (parent.N ref.1) = .ok elements)
    (hbs : s.outputs.get? (((parent.N idx).M 0).N (-1), "body") = some bs)
    (hg : decodeGraph bs = .ok g) {out : Int} {outputNode : NodeDef V} (hout : g.outputIdx = .ok out)
    (hnode : g.nodeAt out = .ok outputNode) :
    let unfinished := (elements.map Prod.fst).filter
      fun i => !s.isNodeFinished ((parent.N idx).M i)
    (unfinished ≠ [] → walkMap decodeGraph walkNode parent idx node s =
      walkElements walkNode (parent.N idx) g unfinished {} s) ∧
    (unfinished = [] → walkMap decodeGraph walkNode parent idx node s =
      .ok ({}, (linkElements (parent.N idx) (outputNode.inputs.toList.map Prod.fst) elements
        s).markNodeFinished (parent.N idx))) := by
  intro unfinished
  have hread : s.readOutput (((parent.N idx).M 0).N (-1)) "body" = .ok bs := by
    rw [Storage.readOutput, hbs]
  have hwalk : walkMap decodeGraph walkNode parent idx node s =
      (walkElements walkNode (parent.N idx) g unfinished {} >>= fun result =>
        if unfinished.isEmpty then do
          let outputNode ← g.nodeAt (← g.outputIdx)
          modify (linkElements (parent.N idx) (outputNode.inputs.toList.map Prod.fst) elements)
          modify fun s => s.markNodeFinished (parent.N idx)
          return result
        else return result) s := by
    unfold walkMap
    rw [StateExcept.get_bind, hfin, if_neg (by decide), StateExcept.lift_bind_of_ok href,
      StateExcept.get_bind, StateExcept.lift_bind_of_ok helements, StateExcept.get_bind,
      StateExcept.get_bind, StateExcept.lift_bind_of_ok hread, StateExcept.lift_bind_of_ok hg]
  rw [hwalk]
  constructor
  · intro hne
    have hempty : unfinished.isEmpty = false := by simpa using hne
    simp only [hempty, Bool.false_eq_true, if_false, bind_pure]
  · intro hnil
    rw [hnil]
    show ((liftM g.outputIdx : Ctl V Int) >>= fun out => do
      let outputNode ← g.nodeAt out
      modify (linkElements (parent.N idx) (outputNode.inputs.toList.map Prod.fst) elements)
      modify fun s => s.markNodeFinished (parent.N idx)
      return ({} : WalkResult V)) s = _
    rw [StateExcept.lift_bind_of_ok hout, StateExcept.lift_bind_of_ok hnode, StateExcept.modify_bind,
      StateExcept.modify_bind]
    rfl

theorem mapWalked_of_feeds (hr : MapReady decodeGraph parent idx body node n g s)
    (hf : MapFeeds parent body node n s) {s' s'' : Storage V}
    (hstart : startMap (parent.N idx) body node s = .ok ((), s')) (hl : Later parent node s' s'')
    (hfin : s''.isNodeFinished (parent.N idx) = false) :
    MapWalked decodeGraph walkNode parent idx node n g s'' := by
  obtain ⟨elements₀, hnodup₀, hmem₀, heq⟩ := startMap_eq hr hf.unfolded
  rw [hstart] at heq
  cases heq
  have hs := mapStarted_of_feeds hr hf hnodup₀ hmem₀
  obtain ⟨-, hout₀, -, -⟩ :=
    @startElements_spec V parent idx body node elements₀ (begun parent idx node n s) hnodup₀
  have hn : 0 < n := by
    by_contra h
    have hin := hl.finished (hs.finished.2 (by omega))
    rw [Storage.isNodeFinished, decide_eq_false_iff_not] at hfin
    exact hfin hin
  -- The ports that elements come from are those that the map was started with.
  have hports : ∀ e ∈ node.inputs.toList, ∀ p, p ∈ s''.readOutputPorts (parent.N e.2.1) ↔
      p ∈ s.readOutputPorts (parent.N e.2.1) := by
    intro e he p
    rw [Storage.mem_readOutputPorts, Storage.mem_readOutputPorts, hl.sources e he,
      hout₀ (parent.N e.2.1, p) fun x _ => Loc.N_ne_input parent e.2.1 idx x.1, outputs_begun]
  obtain ⟨ref, href, hstar, k, hk⟩ := firstRef_eq_ok hf.unfolded
  obtain ⟨elements, helements, hnodup, hmem⟩ := outputsIter_unfolded fun p =>
    (hports _ hk p).trans ((hr.elements _ hk).unfolded hstar p)
  obtain ⟨bs, hbs, hg⟩ := hr.bodyGraph
  obtain ⟨out, outputNode, hout, hnode⟩ := hr.output
  have hbody : s''.outputs.get? (((parent.N idx).M 0).N (-1), "body") = some bs :=
    hl.outputs _ _ ((hs.body 0 hn).trans hbs)
  obtain ⟨hsome, hnone⟩ := @walkMap_eq V decodeGraph walkNode parent idx node g s'' ref elements bs
    hfin href helements hbody hg out outputNode hout hnode
  refine ⟨elements.map Prod.fst, ?_, hsome, fun hnil => ⟨_, hnone hnil, ?_, ?_⟩⟩
  · refine (List.perm_ext_iff_of_nodup hnodup ?_).2 fun i => ?_
    · exact List.nodup_range.map fun a b h => Int.ofNat.inj h
    · rw [List.mem_map, List.mem_map]
      constructor
      · rintro ⟨x, hx, rfl⟩
        obtain ⟨e, he, rfl⟩ := (hmem x).1 hx
        exact ⟨e, List.mem_range.2 he, rfl⟩
      · rintro ⟨e, he, rfl⟩
        exact ⟨_, (hmem _).2 ⟨e, List.mem_range.1 he, rfl⟩, rfl⟩
  · exact Finset.mem_insert_self _ _
  · intro out' outputNode' hout' hnode' output ho e he bs' hbs'
    rw [hout] at hout'
    cases hout'
    rw [hnode] at hnode'
    cases hnode'
    refine get?_linkElements hnodup hmem outputNode.inputs.nodup_toList ?_ he hbs'
    obtain ⟨ref', href'⟩ := AList.lookup_isSome.2 ho |> Option.isSome_iff_exists.1
    exact List.mem_map.2 ⟨(output, ref'), HashMap.get?_eq_some_iff.1 href', rfl⟩

/-- A map does what it is for exactly when some of its ports is that of a list, none that of
another map, and no input takes the place of the body. -/
theorem mapsElements_iff (hr : MapReady decodeGraph parent idx body node n g s) :
    MapsElements decodeGraph walkNode parent idx body node n g s ↔ MapFeeds parent body node n s := by
  constructor
  · rintro ⟨⟨s', hstart, hs⟩, -⟩
    exact feeds_of_mapStarted hr hstart hs
  · intro hf
    obtain ⟨elements, hnodup, hmem, heq⟩ := startMap_eq hr hf.unfolded
    exact ⟨⟨_, heq, mapStarted_of_feeds hr hf hnodup hmem⟩,
      fun s' hstart s'' hl hfin => mapWalked_of_feeds hr hf hstart hl hfin⟩

end

/-! ## Two elements -/

/-- The sum of `x` and `y`. -/
def pairBody : GraphData Unit where
  nodes := [{ kind := .input "x" }, { kind := .input "y" },
    { kind := .function "add", inputs := .ofEntries [("a", (0, "x")), ("b", (1, "y"))] },
    { kind := .output, inputs := .ofEntries [("sum", (2, "value"))] }]
  graphOutputIdx := some 3

/-- A map node with the body of node 0. -/
def mapOver (inputs : List (PortID × ValueRef)) : NodeDef Unit where
  kind := .map (0, "value")
  inputs := .ofEntries inputs

/-- The body at node 0, and outputs of other nodes. -/
def withBody (l : List ((Int × PortID) × Bytes)) : List ((Int × PortID) × Bytes) :=
  ((0, "value"), [123, 125]) :: l

def stored (l : List ((Int × PortID) × Bytes)) : Storage Unit where
  outputs := .ofEntries ((withBody l).map fun e => ((Loc.root.N e.1.1, e.1.2), e.2))

section

variable {l : List ((Int × PortID) × Bytes)} {inputs : List (PortID × ValueRef)} {n : Nat}

theorem toList_stored (h : ((withBody l).map Prod.fst).Nodup) :
    (stored l).outputs.toList = (withBody l).map fun e => ((Loc.root.N e.1.1, e.1.2), e.2) := by
  refine HashMap.toList_ofEntries ?_
  have hkeys : ((withBody l).map fun e => ((Loc.root.N e.1.1, e.1.2), e.2)).map Prod.fst =
      ((withBody l).map Prod.fst).map fun k => (Loc.root.N k.1, k.2) := by
    rw [List.map_map, List.map_map]
    rfl
  rw [hkeys]
  refine h.map fun a b hab => ?_
  obtain ⟨hloc, hport⟩ := Prod.mk.inj hab
  exact Prod.ext (Loc.N_eq_N hloc).2 hport

theorem get?_stored (h : ((withBody l).map Prod.fst).Nodup) {k : Loc × PortID} {bs : Bytes} :
    (stored l).outputs.get? k = some bs ↔
      ∃ i p, ((i, p), bs) ∈ withBody l ∧ k = (Loc.root.N i, p) := by
  rw [HashMap.get?_eq_some_iff, toList_stored h, List.mem_map]
  constructor
  · rintro ⟨e, he, heq⟩
    cases heq
    exact ⟨e.1.1, e.1.2, he, rfl⟩
  · rintro ⟨i, p, he, rfl⟩
    exact ⟨_, he, rfl⟩

theorem mem_ports_stored (h : ((withBody l).map Prod.fst).Nodup) {i : Int} {p : PortID} :
    p ∈ (stored l).readOutputPorts (Loc.root.N i) ↔ (i, p) ∈ (withBody l).map Prod.fst := by
  rw [Storage.mem_readOutputPorts, Option.isSome_iff_exists, List.mem_map]
  constructor
  · rintro ⟨bs, hbs⟩
    obtain ⟨j, q, hm, heq⟩ := (get?_stored h).1 hbs
    obtain ⟨hloc, rfl⟩ := Prod.mk.inj heq
    obtain rfl := (Loc.N_eq_N hloc).2
    exact ⟨_, hm, rfl⟩
  · rintro ⟨e, he, heq⟩
    exact ⟨e.2, (get?_stored h).2 ⟨i, p, heq ▸ he, rfl⟩⟩

theorem mapReady_stored (h : ((withBody l).map Prod.fst).Nodup) (hports : (inputs.map Prod.fst).Nodup)
    (helements : ∀ e ∈ inputs, HasElements (stored l) (Loc.root.N e.2.1) e.2.2 n) :
    MapReady (fun _ => .ok pairBody) Loc.root 4 (0, "value") (mapOver inputs) n pairBody
      (stored l) where
  root := rfl
  kind := rfl
  elements := fun e he => helements e (HashMap.toList_ofEntries hports ▸ he)
  unfinished := Finset.notMem_empty _
  unstarted := fun _ => rfl
  unfed := by
    intro i q
    cases hget : (stored l).outputs.get? (((Loc.root.N 4).M i).N (-1), q) with
    | none => rfl
    | some bs =>
      obtain ⟨j, p, -, heq⟩ := (get?_stored h).1 hget
      exact absurd (Prod.mk.inj heq).1.symm (Loc.N_ne_input Loc.root j 4 i)
  bodyGraph := ⟨_, (get?_stored h).2 ⟨0, "value", .head _, rfl⟩, rfl⟩
  output := ⟨3, _, rfl, rfl⟩

end

/-- Two lists of two elements, and a value for both elements. -/
def listOutputs : List ((Int × PortID) × Bytes) :=
  [((1, "0"), [49]), ((1, "1"), [50]), ((2, "0"), [51]), ((2, "1"), [52]), ((3, "value"), [53])]

def listPorts : List (PortID × ValueRef) :=
  [("x", (1, "*")), ("y", (2, "*")), ("z", (3, "value"))]

/-- Each element of the map at node 4 has its sum. -/
def summed (s : Storage Unit) : Storage Unit where
  outputs := (s.outputs.insert ((Loc.root.N 4).M 0, "sum") [52]).insert
    ((Loc.root.N 4).M 1, "sum") [54]
  nodeDefs := s.nodeDefs
  finished := insert ((Loc.root.N 4).M 1) (insert ((Loc.root.N 4).M 0) s.finished)

theorem hasElements_lists {i : Int} (hi : i = 1 ∨ i = 2) :
    HasElements (stored listOutputs) (Loc.root.N i) "*" 2 := by
  refine ⟨fun _ p => ?_, fun output h => absurd h.symm (append_star_ne output)⟩
  rw [mem_ports_stored (by decide)]
  have htwo : (∃ e < 2, p = toString e) ↔ p = "0" ∨ p = "1" := by
    constructor
    · rintro ⟨e, he, rfl⟩
      obtain rfl | rfl : e = 0 ∨ e = 1 := by omega
      · exact .inl rfl
      · exact .inr rfl
    · rintro (rfl | rfl)
      · exact ⟨0, by decide, rfl⟩
      · exact ⟨1, by decide, rfl⟩
  rw [htwo]
  rcases hi with rfl | rfl
  · simp [withBody, listOutputs]
  · simp [withBody, listOutputs]

/-- The map over both lists does what it is for; once the sums are there, they are linked under
the numbers of their elements. -/
theorem mapsElements_lists :
    MapsElements (fun _ => .ok pairBody) (fun _ _ _ => pure {}) Loc.root 4 (0, "value")
        (mapOver listPorts) 2 pairBody (stored listOutputs) ∧
      ∃ s₁ s₂,
        startMap (Loc.root.N 4) (0, "value") (mapOver listPorts) (stored listOutputs) = .ok ((), s₁) ∧
        s₁.outputs.get? (((Loc.root.N 4).M 1).N (-1), "y") = some [52] ∧
        walkMap (fun _ => .ok pairBody) (fun _ _ _ => pure {}) Loc.root 4 (mapOver listPorts)
            (summed s₁) =
          .ok ({}, s₂) ∧
        s₂.outputs.get? (Loc.root.N 4, "sum-0") = some [52] ∧
        s₂.outputs.get? (Loc.root.N 4, "sum-1") = some [54] := by
  refine ⟨(mapsElements_iff (mapReady_stored (by decide) (by decide) ?ready)).2 ?feeds,
    _, _, rfl, by rfl, rfl, by rfl, by rfl⟩
  case ready =>
    unfold listPorts
    simp only [List.forall_mem_cons]
    refine ⟨hasElements_lists (.inl rfl), hasElements_lists (.inr rfl), ⟨?_, ?_⟩, by simp⟩
    · exact fun h => absurd h (by decide)
    · exact fun output h => absurd h (ne_of_mappedOutput (by decide) output)
  case feeds =>
    have hinputs : (mapOver listPorts).inputs.toList = listPorts :=
      HashMap.toList_ofEntries (by decide)
    refine ⟨?_, fun _ => ?_, fun ref href => ?_⟩
    · rw [hinputs]
      exact ⟨_, .head _, rfl⟩
    · rw [hinputs]
      unfold listPorts
      simp only [List.forall_mem_cons]
      exact ⟨ne_of_mappedOutput (by decide), ne_of_mappedOutput (by decide),
        ne_of_mappedOutput (by decide), by simp⟩
    · cases href

/-- Maps of two elements with the outputs `y` and `z`. -/
def chainedPorts : List (PortID × ValueRef) := [("x", (1, "y-*")), ("w", (1, "z-*"))]

def chainedOutputs : List ((Int × PortID) × Bytes) :=
  [((1, "y-0"), [49]), ((1, "y-1"), [50]), ((1, "z-0"), [51]), ((1, "z-1"), [52])]

theorem hasElements_chained {o : PortID} (ho : o = "y" ∨ o = "z") :
    HasElements (stored chainedOutputs) (Loc.root.N 1) (o ++ "-*") 2 := by
  refine ⟨fun h => absurd h (append_star_ne o), fun output h => ?_⟩
  obtain rfl : o = output := by
    have hm := congrArg mappedOutput h
    rw [mappedOutput_append, mappedOutput_append] at hm
    exact Option.some.inj hm
  refine ⟨fun e he => ?_, fun p hp => ?_⟩
  · rw [mem_ports_stored (by decide)]
    obtain rfl | rfl : e = 0 ∨ e = 1 := by omega
    · rcases ho with rfl | rfl
      · decide
      · decide
    · rcases ho with rfl | rfl
      · decide
      · decide
  · rw [mem_ports_stored (by decide)] at hp
    obtain rfl | rfl | rfl | rfl : p = "y-0" ∨ p = "y-1" ∨ p = "z-0" ∨ p = "z-1" := by
      simpa [withBody, chainedOutputs] using hp
    · exact ⟨"y", 0, by decide, rfl⟩
    · exact ⟨"y", 1, by decide, rfl⟩
    · exact ⟨"z", 0, by decide, rfl⟩
    · exact ⟨"z", 1, by decide, rfl⟩

/-- A map over the outputs of a map of two elements does not start. -/
theorem not_mapsElements :
    MapReady (fun _ => .ok pairBody) Loc.root 4 (0, "value") (mapOver chainedPorts) 2 pairBody
        (stored chainedOutputs) ∧
      startMap (Loc.root.N 4) (0, "value") (mapOver chainedPorts) (stored chainedOutputs) =
        .error .stopIteration ∧
      ¬ MapsElements (fun _ => .ok pairBody) (fun _ _ _ => pure {}) Loc.root 4 (0, "value")
        (mapOver chainedPorts) 2 pairBody (stored chainedOutputs) := by
  refine ⟨mapReady_stored (by decide) (by decide) ?elements, rfl, ?fails⟩
  case elements =>
    unfold chainedPorts
    simp only [List.forall_mem_cons]
    exact ⟨hasElements_chained (.inl rfl), hasElements_chained (.inr rfl), by simp⟩
  case fails =>
    rintro ⟨⟨s', hstart, -⟩, -⟩
    cases hstart

end Tierkreis.Controller
