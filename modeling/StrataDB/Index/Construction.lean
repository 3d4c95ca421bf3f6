import Mathlib.Data.List.Nodup
import StrataDB.Index.Hnsw
import StrataDB.Lib.List

/-! What an insertion keeps. A node's list in a layer never names the node itself or
the same node twice, names only nodes of that layer and is never longer than the layer
allows: a list that has got one too many is cut by one shrink, since at most as many
as are allowed can be kept. The new node is on no list of a layer before its own search
there has ended, so that search does not find it. -/

namespace StrataDB.Index

open Lib Arrow

namespace Hnsw

variable {δ : Type} {C : Config δ} {g g' : Graph} {n : Node}

/-! ### Slots -/

namespace Slots

variable {slots : Slots} {id : ℕ}

/-- There is room as long as not every slot is taken. -/
theorem exists_claim (h : slots.occupied.length < slots.length) :
    ∃ slots', slots.claim id = some slots' ∧ slots'.length = slots.length ∧
      slots'.occupied.Perm (id :: slots.occupied) := by
  induction slots with
  | nil => cases h
  | cons slot rest ih =>
    cases slot with
    | none => exact ⟨some id :: rest, rfl, rfl, .refl _⟩
    | some x =>
      obtain ⟨rest', hclaim, hlen, hperm⟩ := ih (by simpa [occupied] using h)
      refine ⟨some x :: rest', by rw [claim, hclaim]; rfl, by simp [hlen], ?_⟩
      exact (hperm.cons x).trans (.swap id x _)

theorem occupied_clearMatching (toRemove : List ℕ) (slots : Slots) :
    (slots.clearMatching toRemove).occupied =
      slots.occupied.filter fun x => !toRemove.contains x := by
  induction slots with
  | nil => rfl
  | cons slot rest ih =>
    cases slot with
    | none => exact ih
    | some x =>
      unfold clearMatching occupied at ih ⊢
      by_cases hx : toRemove.contains x = true <;> simp_all

@[simp] theorem length_clearMatching (toRemove : List ℕ) (slots : Slots) :
    (slots.clearMatching toRemove).length = slots.length :=
  List.length_map ..

end Slots

/-! ### The choice of neighbours -/

variable (candidates : List (ℕ × δ)) {lc i q d : ℕ} {query : Vector}

theorem foldl_pick {m : ℕ} {pairwise : ℕ → ℕ → δ} {out : List ℕ} :
    ∃ picked, candidates.foldl (pick C m pairwise) out = out ++ picked ∧
      picked.Sublist (candidates.map Prod.fst) ∧ (out ++ picked).length ≤ max m out.length := by
  induction candidates generalizing out with
  | nil => exact ⟨[], by simp, .slnil, by simp⟩
  | cons c candidates ih =>
    rw [List.foldl_cons, List.map_cons]
    by_cases hkept : pick C m pairwise out c = out
    · obtain ⟨picked, heq, hsub, hlen⟩ := ih
      rw [hkept]
      exact ⟨picked, heq, hsub.cons _, hlen⟩
    · have hpick : pick C m pairwise out c = out ++ [c.1] ∧ out.length < m := by
        unfold pick at hkept ⊢
        split_ifs at hkept ⊢ with hm hdom
        · exact absurd rfl hkept
        · exact absurd rfl hkept
        · exact ⟨rfl, by omega⟩
      obtain ⟨picked, heq, hsub, hlen⟩ := ih
      rw [hpick.1, heq, List.append_assoc]
      refine ⟨c.1 :: picked, rfl, hsub.cons_cons _, ?_⟩
      have := hpick.2
      simp only [List.length_append, List.length_cons, List.length_nil] at hlen ⊢
      omega

/-- At most `m` candidates, none twice unless it was a candidate twice. -/
theorem selectNeighborsHeuristic_spec (m : ℕ) (pairwise : ℕ → ℕ → δ)
    (hnodup : (candidates.map Prod.fst).Nodup) :
    (selectNeighborsHeuristic C candidates m pairwise).Nodup ∧
      (∀ id ∈ selectNeighborsHeuristic C candidates m pairwise, id ∈ candidates.map Prod.fst) ∧
      (selectNeighborsHeuristic C candidates m pairwise).length ≤ m := by
  unfold selectNeighborsHeuristic
  have hperm := (List.perm_insertionSort (fun a b => !C.metric.lt b.2 a.2) candidates).map Prod.fst
  obtain ⟨picked, heq, hsub, hlen⟩ := foldl_pick (C := C) (m := m)
    (candidates.insertionSort fun a b => !C.metric.lt b.2 a.2)
  rw [heq]
  refine ⟨(hperm.nodup_iff.mpr hnodup).sublist hsub, fun id hid => ?_, by simpa using hlen⟩
  exact hperm.mem_iff.mp (hsub.subset hid)

/-- A list that is too long loses enough to be short enough. -/
theorem toRemove_spec (owner : Vector) (capacity : ℕ) {occupied : List ℕ}
    (hnodup : occupied.Nodup) :
    (occupied.filter fun x => !(toRemove C g owner capacity occupied).contains x).length ≤
      capacity := by
  set keep := selectNeighborsHeuristic C
    (occupied.map fun id => (id, distanceTo C g owner id)) capacity (pairwiseDistance C g)
    with hkeep
  have hids : (occupied.map fun id => (id, distanceTo C g owner id)).map Prod.fst = occupied := by
    rw [List.map_map]
    exact List.map_id _
  obtain ⟨-, -, hlen⟩ := selectNeighborsHeuristic_spec (C := C)
    (occupied.map fun id => (id, distanceTo C g owner id)) capacity (pairwiseDistance C g)
    (by rwa [hids])
  have hsub : (occupied.filter fun x =>
      !(toRemove C g owner capacity occupied).contains x) ⊆ keep := by
    intro x hx
    obtain ⟨hx, hnot⟩ := List.mem_filter.mp hx
    by_contra hout
    have hmem : x ∈ toRemove C g owner capacity occupied :=
      List.mem_filter.mpr ⟨hx, by simpa using hout⟩
    simp [hmem] at hnot
  exact ((hnodup.filter _).subperm hsub).length_le.trans hlen

theorem toRemove_ne_nil {owner : Vector} {capacity : ℕ} {occupied : List ℕ}
    (hnodup : occupied.Nodup) (hlong : capacity < occupied.length) :
    toRemove C g owner capacity occupied ≠ [] := by
  intro hnil
  have hlen := toRemove_spec (C := C) (g := g) owner capacity hnodup
  rw [hnil, List.filter_eq_self.mpr (by simp)] at hlen
  omega

/-! ### Nodes in a graph -/

namespace Graph

theorem get_rowId {i : ℕ} (h : g.get i = some n) : n.rowId = i := by
  simpa using List.find?_some h

theorem mem_of_get {i : ℕ} (h : g.get i = some n) : n ∈ g.nodes :=
  List.mem_of_find?_eq_some h

theorem get_of_mem (hids : (g.nodes.map Node.rowId).Nodup) (h : n ∈ g.nodes) :
    g.get n.rowId = some n :=
  find?_key_eq hids h

variable {f : Node → Node}

theorem get_modify (g : Graph) (i j : ℕ) (hf : ∀ n, (f n).rowId = n.rowId) :
    (g.modify i f).get j = if j = i then (g.get i).map f else g.get j := by
  unfold get modify
  dsimp only
  rw [List.find?_map]
  have hsame : ((fun n : Node => n.rowId == j) ∘ fun n => if n.rowId = i then f n else n) =
      fun n => n.rowId == j := by
    funext n
    dsimp only [Function.comp]
    split <;> simp [hf]
  rw [hsame]
  by_cases hij : j = i
  · subst hij
    rw [if_pos rfl]
    cases hfind : g.nodes.find? (fun n => n.rowId == j) with
    | none => rfl
    | some n =>
      have hid : n.rowId = j := by simpa using List.find?_some hfind
      simp [hid]
  · rw [if_neg hij]
    cases hfind : g.nodes.find? (fun n => n.rowId == j) with
    | none => rfl
    | some n =>
      have hid : n.rowId = j := by simpa using List.find?_some hfind
      simp [hid, hij]

theorem get_setLayer (g : Graph) (i j lc : ℕ) (slots : Slots) :
    (g.setLayer i lc slots).get j =
      if j = i then (g.get i).map (·.setLayer lc slots) else g.get j :=
  get_modify g i j fun _ => rfl

theorem modify_rowIds (g : Graph) (i : ℕ) (hf : ∀ n, (f n).rowId = n.rowId) :
    (g.modify i f).nodes.map Node.rowId = g.nodes.map Node.rowId := by
  rw [modify, List.map_map]
  refine List.map_congr_left fun n _ => ?_
  dsimp only [Function.comp]
  split <;> simp [hf]

theorem setLayer_setLayer (g : Graph) (i lc : ℕ) (a b : Slots) :
    (g.setLayer i lc a).setLayer i lc b = g.setLayer i lc b := by
  unfold setLayer modify
  rw [List.map_map]
  congr 1
  refine List.map_congr_left fun n _ => ?_
  by_cases hn : n.rowId = i <;> simp [hn, Node.setLayer]

theorem lt_bound_of_get {i : ℕ} (h : g.get i = some n) : i < g.bound := by
  refine lt_bound (List.mem_append_left _ (List.mem_append_left _ ?_))
  exact List.mem_map.mpr ⟨n, mem_of_get h, get_rowId h⟩

end Graph

theorem Node.layer_setLayer (h : lc < n.layers.length) (slots : Slots) :
    (n.setLayer lc slots).layer lc = slots := by
  rw [Node.layer, Node.setLayer, List.getD_eq_getElem _ _ (by simpa using h)]
  simp

theorem Node.layer_setLayer_of_ne {k : ℕ} (h : k ≠ lc) (slots : Slots) :
    (n.setLayer lc slots).layer k = n.layer k := by
  rw [Node.layer, Node.layer, Node.setLayer, List.getD_eq_getElem?_getD,
    List.getD_eq_getElem?_getD, List.getElem?_set_ne (Ne.symm h)]

/-! ### Well-formed lists -/

/-- The slots of a layer of a node. -/
structure LayerOk (C : Config δ) (g : Graph) (rowId lc : ℕ) (slots : Slots) : Prop where
  length : slots.length = C.layerSlotCount lc
  nodup : slots.occupied.Nodup
  self : rowId ∉ slots.occupied
  target : ∀ x ∈ slots.occupied, ∃ y, g.get x = some y ∧ lc ≤ y.level
  degree : slots.occupied.length ≤ C.capacity lc

/-- Every list of the graph is well formed. -/
structure Linked (C : Config δ) (g : Graph) : Prop where
  ids : (g.nodes.map Node.rowId).Nodup
  layers : ∀ n ∈ g.nodes, n.layers.length = n.level + 1
  layer : ∀ n ∈ g.nodes, ∀ lc ≤ n.level, LayerOk C g n.rowId lc (n.layer lc)

/-- `g'` has the nodes of `g`; only their lists in the given layers may differ. -/
structure Rewired (touched : ℕ → Prop) (g g' : Graph) : Prop where
  entryPoint : g'.entryPoint = g.entryPoint
  dimension : g'.dimension = g.dimension
  nodes : List.Forall₂ (fun n n' => n'.rowId = n.rowId ∧ n'.vector = n.vector ∧
    n'.level = n.level ∧ n'.deleted = n.deleted ∧ n'.published = n.published ∧
    ∀ k, ¬ touched k → n'.layer k = n.layer k) g.nodes g'.nodes

theorem forall₂_trans {α β γ : Type} {R : α → β → Prop} {S : β → γ → Prop} {T : α → γ → Prop}
    (h : ∀ a b c, R a b → S b c → T a c) {as : List α} {bs : List β} {cs : List γ}
    (hab : List.Forall₂ R as bs) (hbc : List.Forall₂ S bs cs) : List.Forall₂ T as cs := by
  induction hab generalizing cs with
  | nil =>
    cases hbc
    exact .nil
  | cons hr _ ih =>
    cases hbc with
    | cons hs hrest => exact .cons (h _ _ _ hr hs) (ih hrest)

namespace Rewired

variable {touched : ℕ → Prop}

theorem refl (g : Graph) : Rewired touched g g :=
  ⟨rfl, rfl, List.forall₂_same.mpr fun _ _ => ⟨rfl, rfl, rfl, rfl, rfl, fun _ _ => rfl⟩⟩

theorem trans {g'' : Graph} (h : Rewired touched g g') (h' : Rewired touched g' g'') :
    Rewired touched g g'' := by
  refine ⟨h'.entryPoint.trans h.entryPoint, h'.dimension.trans h.dimension, ?_⟩
  refine forall₂_trans (fun a b c hab hbc => ?_) h.nodes h'.nodes
  obtain ⟨h₁, h₂, h₃, h₄, h₅, h₆⟩ := hab
  obtain ⟨k₁, k₂, k₃, k₄, k₅, k₆⟩ := hbc
  exact ⟨k₁.trans h₁, k₂.trans h₂, k₃.trans h₃, k₄.trans h₄, k₅.trans h₅,
    fun k hk => (k₆ k hk).trans (h₆ k hk)⟩

theorem mono {touched' : ℕ → Prop} (h : Rewired touched g g')
    (hsub : ∀ k, touched k → touched' k) : Rewired touched' g g' :=
  ⟨h.entryPoint, h.dimension, h.nodes.imp fun _ _ ⟨h₁, h₂, h₃, h₄, h₅, h₆⟩ =>
    ⟨h₁, h₂, h₃, h₄, h₅, fun k hk => h₆ k fun ht => hk (hsub k ht)⟩⟩

theorem rowIds_eq (h : Rewired touched g g') :
    g'.nodes.map Node.rowId = g.nodes.map Node.rowId :=
  map_eq_of_forall₂ (h.nodes.imp fun _ _ hn => hn.1)

variable {i : ℕ}

theorem get (h : Rewired touched g g') (hget : g.get i = some n) :
    ∃ n', g'.get i = some n' ∧ n'.rowId = n.rowId ∧ n'.vector = n.vector ∧ n'.level = n.level ∧
      n'.deleted = n.deleted ∧ n'.published = n.published ∧
      ∀ k, ¬ touched k → n'.layer k = n.layer k := by
  have hnodes := h.nodes
  unfold Graph.get at hget ⊢
  generalize g.nodes = xs at hnodes hget
  generalize g'.nodes = ys at hnodes ⊢
  induction hnodes with
  | nil => cases hget
  | @cons a b as bs hab _ ih =>
    rw [List.find?_cons] at hget ⊢
    rw [hab.1]
    cases hid : a.rowId == i <;> rw [hid] at hget
    · exact ih hget
    · cases hget
      exact ⟨b, rfl, hab⟩

theorem get_none (h : Rewired touched g g') (hget : g.get i = none) : g'.get i = none := by
  rw [Graph.get, List.find?_eq_none] at hget ⊢
  intro n' hn'
  have hmem : n'.rowId ∈ g.nodes.map Node.rowId := h.rowIds_eq ▸ List.mem_map_of_mem hn'
  obtain ⟨n, hn, hid⟩ := List.mem_map.mp hmem
  rw [← hid]
  exact hget n hn

theorem neighbors_eq (h : Rewired touched g g') {lc : ℕ} (hlc : ¬ touched lc) (i : ℕ) :
    g'.neighbors i lc = g.neighbors i lc := by
  unfold Graph.neighbors
  cases hget : g.get i with
  | none => rw [h.get_none hget]
  | some n =>
    obtain ⟨n', hget', -, -, hlevel, -, -, hlayer⟩ := h.get hget
    rw [hget']
    dsimp only
    rw [hlevel, Node.neighbors, Node.neighbors, hlayer lc hlc]

end Rewired

theorem rewired_setLayer (g : Graph) (owner lc : ℕ) (slots : Slots) :
    Rewired (· = lc) g (g.setLayer owner lc slots) := by
  refine ⟨rfl, rfl, ?_⟩
  rw [Graph.setLayer, Graph.modify, List.forall₂_map_right_iff, List.forall₂_same]
  intro n _
  by_cases hn : n.rowId = owner
  · rw [if_pos hn]
    exact ⟨rfl, rfl, rfl, rfl, rfl, fun k hk => Node.layer_setLayer_of_ne hk slots⟩
  · rw [if_neg hn]
    exact ⟨rfl, rfl, rfl, rfl, rfl, fun _ _ => rfl⟩

theorem LayerOk.rewired {touched : ℕ → Prop} (hr : Rewired touched g g') {rowId : ℕ} {slots : Slots}
    (h : LayerOk C g rowId lc slots) : LayerOk C g' rowId lc slots := by
  refine ⟨h.length, h.nodup, h.self, fun x hx => ?_, h.degree⟩
  obtain ⟨y, hy, hlevel⟩ := h.target x hx
  obtain ⟨y', hy', -, -, heq, -⟩ := hr.get hy
  exact ⟨y', hy', heq ▸ hlevel⟩

namespace Linked

variable {i lc : ℕ}

theorem neighbors (h : Linked C g) (hget : g.get i = some n) (hlc : lc ≤ n.level) :
    g.neighbors i lc = n.neighbors lc ∧ LayerOk C g i lc (n.layer lc) := by
  have hlayer := h.layer n (Graph.mem_of_get hget) lc hlc
  rw [Graph.get_rowId hget] at hlayer
  refine ⟨?_, hlayer⟩
  rw [Graph.neighbors, hget]
  exact if_pos hlc

/-- Slots that are well formed may replace those of a node. -/
theorem setLayer (h : Linked C g) (hget : g.get i = some n) (hlc : lc ≤ n.level) {slots : Slots}
    (hok : LayerOk C g i lc slots) : Linked C (g.setLayer i lc slots) := by
  have hr := rewired_setLayer g i lc slots
  refine ⟨hr.rowIds_eq ▸ h.ids, fun n' hn' => ?_, fun n' hn' k hk => ?_⟩
  · obtain ⟨a, ha, rfl⟩ := List.mem_map.mp hn'
    have hlen := h.layers a ha
    split
    · change (a.layers.set lc slots).length = a.level + 1
      rw [List.length_set, hlen]
    · exact hlen
  · obtain ⟨a, ha, rfl⟩ := List.mem_map.mp hn'
    by_cases hid : a.rowId = i
    · rw [if_pos hid] at hk ⊢
      obtain rfl : a = n := by
        have hsame := Graph.get_of_mem h.ids ha
        rw [hid, hget] at hsame
        exact (Option.some.inj hsame).symm
      by_cases hkl : k = lc
      · subst hkl
        rw [Node.layer_setLayer (by rw [h.layers a ha]; omega)]
        change LayerOk C (g.setLayer i k slots) a.rowId k slots
        rw [hid]
        exact hok.rewired hr
      · rw [Node.layer_setLayer_of_ne hkl]
        exact (h.layer a ha k hk).rewired hr
    · rw [if_neg hid] at hk ⊢
      exact (h.layer a ha k hk).rewired hr

end Linked

theorem neighbors_setLayer (h : Linked C g) (hget : g.get i = some n) (hlc : lc ≤ n.level)
    (slots : Slots) (j : ℕ) :
    (g.setLayer i lc slots).neighbors j lc =
      if j = i then slots.occupied else g.neighbors j lc := by
  unfold Graph.neighbors
  rw [Graph.get_setLayer]
  by_cases hij : j = i
  · subst hij
    rw [if_pos rfl, if_pos rfl, hget]
    have hlen := h.layers n (Graph.mem_of_get hget)
    change (if lc ≤ n.level then ((n.setLayer lc slots).layer lc).occupied else []) = _
    rw [if_pos hlc, Node.layer_setLayer (by omega)]
  · rw [if_neg hij, if_neg hij]

/-! ### One edge -/

section

variable {owner x left : ℕ} {slots : Slots} {flag : Bool}

/-- What a claim leaves, or a part of it that is short enough, is well formed. -/
theorem LayerOk.claimed (hok : LayerOk C g owner lc (n.layer lc)) {claimed : Slots}
    (hlen : claimed.length = (n.layer lc).length)
    (hperm : claimed.occupied.Perm (x :: (n.layer lc).occupied)) (hself : x ≠ owner)
    (hnew : x ∉ n.neighbors lc) (htarget : ∃ y, g.get x = some y ∧ lc ≤ y.level)
    (hpart : slots.length = claimed.length) (hsub : slots.occupied.Sublist claimed.occupied)
    (hle : slots.occupied.length ≤ C.capacity lc) : LayerOk C g owner lc slots := by
  have hmem : ∀ y ∈ slots.occupied, y = x ∨ y ∈ (n.layer lc).occupied := fun y hy =>
    List.mem_cons.mp (hperm.mem_iff.mp (hsub.subset hy))
  refine ⟨hpart.trans (hlen.trans hok.length), ?_, fun hmem' => ?_, fun y hy => ?_, hle⟩
  · exact (hperm.nodup_iff.mpr (List.nodup_cons.mpr ⟨hnew, hok.nodup⟩)).sublist hsub
  · rcases hmem _ hmem' with heq | hin
    · exact hself heq.symm
    · exact hok.self hin
  · rcases hmem y hy with rfl | hin
    · exact htarget
    · exact hok.target y hin

theorem pruneStep_converged (hget : g.get owner = some n) (hlayer : n.layer lc = slots)
    (hshort : slots.occupied.length ≤ C.capacity lc) :
    pruneStep C owner x lc (C.capacity lc) true (g, flag) = (.converged, (g, true)) := by
  rw [pruneStep]
  dsimp only
  rw [hget]
  dsimp only
  rw [Node.neighbors, hlayer, if_pos hshort, Bool.true_or]

theorem pruneStep_progressed (hget : g.get owner = some n) (hlayer : n.layer lc = slots)
    (hnodup : slots.occupied.Nodup) (hlong : C.capacity lc < slots.occupied.length) :
    pruneStep C owner x lc (C.capacity lc) true (g, flag) =
      (.progressed, (g.setLayer owner lc (slots.clearMatching
        (toRemove C g n.vector (C.capacity lc) slots.occupied)), flag)) := by
  have hne : toRemove C g n.vector (C.capacity lc) slots.occupied ≠ [] :=
    toRemove_ne_nil hnodup hlong
  rw [pruneStep]
  dsimp only
  rw [hget]
  dsimp only
  rw [Node.neighbors, hlayer, if_neg (by omega), shrinkAndCheck, if_neg hne, hlayer,
    Graph.get_rowId hget]

/-- One claim, and one shrink if it was one too many. -/
theorem claimAndPrune_spec (h : Linked C g) (hget : g.get owner = some n)
    (hlc : lc ≤ n.level) (hself : x ≠ owner) (hnew : x ∉ n.neighbors lc)
    (htarget : ∃ y, g.get x = some y ∧ lc ≤ y.level) :
    ∃ slots, claimAndPrune C owner x lc (C.capacity lc) (left + 1) g =
        (.ok (), g.setLayer owner lc slots) ∧ LayerOk C g owner lc slots ∧
      ∀ y ∈ slots.occupied, y = x ∨ y ∈ n.neighbors lc := by
  obtain ⟨-, hok⟩ := h.neighbors hget hlc
  have hlayers := h.layers n (Graph.mem_of_get hget)
  have hroom : (n.layer lc).occupied.length < (n.layer lc).length := by
    rw [hok.length, Config.layerSlotCount]
    exact Nat.lt_succ_of_le hok.degree
  obtain ⟨slots₁, hclaim, hlen₁, hperm⟩ := Slots.exists_claim hroom
  have hnodup₁ : slots₁.occupied.Nodup :=
    hperm.nodup_iff.mpr (List.nodup_cons.mpr ⟨hnew, hok.nodup⟩)
  have hmem₁ : ∀ y ∈ slots₁.occupied, y = x ∨ y ∈ n.neighbors lc := fun y hy =>
    List.mem_cons.mp (hperm.mem_iff.mp hy)
  have hclaimed : claimSlot g owner x lc = (true, g.setLayer owner lc slots₁) := by
    rw [claimSlot, hget, Option.bind_some, hclaim]
  have hgets : ∀ slots, (g.setLayer owner lc slots).get owner = some (n.setLayer lc slots) :=
    fun slots => by rw [Graph.get_setLayer, if_pos rfl, hget, Option.map_some]
  have hlayer : ∀ slots, (n.setLayer lc slots).layer lc = slots := fun slots =>
    Node.layer_setLayer (by omega) slots
  by_cases hshort : slots₁.occupied.length ≤ C.capacity lc
  · refine ⟨slots₁, ?_, hok.claimed hlen₁ hperm hself hnew htarget rfl (.refl _) hshort, hmem₁⟩
    rw [claimAndPrune, hclaimed]
    dsimp only
    rw [show maxShrinkRetries = 63 + 1 from rfl, runShrinkRetryLoop,
      pruneStep_converged (hgets slots₁) (hlayer slots₁) hshort]
    dsimp only
    rw [if_pos rfl]
  · set slots₂ := slots₁.clearMatching (toRemove C (g.setLayer owner lc slots₁)
      (n.setLayer lc slots₁).vector (C.capacity lc) slots₁.occupied) with hslots₂
    have hsub₂ : slots₂.occupied.Sublist slots₁.occupied := by
      rw [hslots₂, Slots.occupied_clearMatching]
      exact List.filter_sublist
    have hle₂ : slots₂.occupied.length ≤ C.capacity lc := by
      rw [hslots₂, Slots.occupied_clearMatching]
      exact toRemove_spec _ _ hnodup₁
    refine ⟨slots₂, ?_, hok.claimed hlen₁ hperm hself hnew htarget
      (Slots.length_clearMatching _ _) hsub₂ hle₂, fun y hy => hmem₁ y (hsub₂.subset hy)⟩
    rw [claimAndPrune, hclaimed]
    dsimp only
    rw [show maxShrinkRetries = 62 + 1 + 1 from rfl, runShrinkRetryLoop,
      pruneStep_progressed (hgets slots₁) (hlayer slots₁) hnodup₁ (Nat.lt_of_not_le hshort),
      ← hslots₂, Graph.setLayer_setLayer]
    dsimp only
    rw [if_neg (Nat.succ_ne_zero 62), runShrinkRetryLoop,
      pruneStep_converged (hgets slots₂) (hlayer slots₂) hle₂]
    dsimp only
    rw [if_pos rfl]

end

/-! ### The edges of a layer -/

/-- A node of a layer that has no edge yet to any of the given ones. -/
structure Apart (g : Graph) (q lc : ℕ) (others : List ℕ) : Prop where
  node : ∃ n, g.get q = some n ∧ lc ≤ n.level
  nodup : others.Nodup
  not_mem : q ∉ others
  to_other : ∀ x ∈ others, x ∉ g.neighbors q lc
  from_other : ∀ x ∈ others, q ∉ g.neighbors x lc

theorem connect_spec (h : Linked C g) {chosen : List ℕ} (hapart : Apart g q lc chosen) :
    ∃ g', connect C q lc chosen g = (.ok (), g') ∧ Linked C g' ∧ Rewired (· = lc) g g' := by
  induction chosen generalizing g with
  | nil => exact ⟨g, rfl, h, .refl g⟩
  | cons x rest ih =>
    obtain ⟨hnode, hnodup, hnot, hto, hfrom⟩ := hapart
    rw [List.nodup_cons] at hnodup
    rw [List.mem_cons, not_or] at hnot
    rw [List.forall_mem_cons] at hto hfrom
    rw [connect]
    cases hx : (g.get x).any fun n => lc ≤ n.level with
    | false =>
      rw [if_neg Bool.false_ne_true]
      exact ih h ⟨hnode, hnodup.2, hnot.2, hto.2, hfrom.2⟩
    | true =>
      obtain ⟨y, hy, hlevel⟩ := Option.any_eq_true _ _ |>.mp hx
      have hlevel : lc ≤ y.level := by simpa using hlevel
      obtain ⟨n, hn, hlc⟩ := hnode
      have hxq : x ≠ q := Ne.symm hnot.1
      -- the new node in the list of the other
      have hfree : q ∉ y.neighbors lc := by
        rw [← (h.neighbors hy hlevel).1]
        exact hfrom.1
      obtain ⟨slots, hclaim, hok, hsub⟩ := claimAndPrune_spec h hy hlevel
        (Ne.symm hxq) hfree ⟨n, hn, hlc⟩
      have hlinked := h.setLayer hy hlevel hok
      have hn₁ : (g.setLayer x lc slots).get q = some n := by
        rw [Graph.get_setLayer, if_neg hnot.1, hn]
      -- the other in the list of the new node
      have hfree₁ : x ∉ n.neighbors lc := by
        rw [← (h.neighbors hn hlc).1]
        exact hto.1
      have htarget₁ : ∃ y, (g.setLayer x lc slots).get x = some y ∧ lc ≤ y.level := by
        rw [Graph.get_setLayer, if_pos rfl, hy]
        exact ⟨_, rfl, hlevel⟩
      obtain ⟨slots', hclaim', hok', hsub'⟩ := claimAndPrune_spec hlinked hn₁ hlc
        hxq hfree₁ htarget₁
      have hlinked' := hlinked.setLayer hn₁ hlc hok'
      have hlist : ∀ z, ((g.setLayer x lc slots).setLayer q lc slots').neighbors z lc =
          if z = q then slots'.occupied else if z = x then slots.occupied
          else g.neighbors z lc := by
        intro z
        rw [neighbors_setLayer hlinked hn₁ hlc, neighbors_setLayer h hy hlevel]
      have hnode' : ∃ n, ((g.setLayer x lc slots).setLayer q lc slots').get q = some n ∧
          lc ≤ n.level := by
        rw [Graph.get_setLayer, if_pos rfl, hn₁]
        exact ⟨_, rfl, hlc⟩
      obtain ⟨g', hg', hlinked'', hrewired⟩ := ih hlinked' ⟨hnode', hnodup.2, hnot.2,
        fun z hz => by
          rw [hlist, if_pos rfl]
          intro hmem
          rcases hsub' z hmem with rfl | hmem
          · exact hnodup.1 hz
          · rw [← (h.neighbors hn hlc).1] at hmem
            exact hto.2 z hz hmem,
        fun z hz => by
          have hzq : z ≠ q := ne_of_mem_of_not_mem hz hnot.2
          have hzx : z ≠ x := ne_of_mem_of_not_mem hz hnodup.1
          rw [hlist, if_neg hzq, if_neg hzx]
          exact hfrom.2 z hz⟩
      refine ⟨g', ?_, hlinked'', ((rewired_setLayer g x lc slots).trans
        (rewired_setLayer _ q lc slots')).trans hrewired⟩
      rw [if_pos rfl, show maxShrinkRetries = 63 + 1 from rfl, hclaim]
      dsimp only
      rw [hclaim']
      exact hg'

/-! ### Searches during an insertion -/

/-- A search in a layer where nobody names `q` does not find `q`. -/
theorem searchLayer_avoids {ef entry : ℕ} (hentry : ∃ n, g.get entry = some n) (hne : entry ≠ q)
    (hfree : ∀ x, q ∉ g.neighbors x lc) :
    ∃ found, (layerSearch C g query ef lc).searchLayer entry = some found ∧
      (found.map Prod.fst).Nodup ∧ q ∉ found.map Prod.fst ∧
      (∀ p ∈ found, ∃ n, g.get p.1 = some n) := by
  obtain ⟨n, hn⟩ := hentry
  obtain ⟨found, hfound, hnodup, hall, -, -⟩ := LayerSearch.searchLayer_spec
    (L := layerSearch C g query ef lc) (Graph.lt_bound_of_get hn)
  refine ⟨found, hfound, hnodup, fun hmem => ?_, fun p hp => ?_⟩
  · obtain ⟨p, hp, hq⟩ := List.mem_map.mp hmem
    have hreach := (hall p hp).1
    rw [hq] at hreach
    rcases Relation.ReflTransGen.cases_tail hreach with heq | ⟨u, -, hedge⟩
    · exact hne heq.symm
    · exact hfree u hedge.2
  · have hadmits := (hall p hp).2.2.1
    simp only [LayerSearch.admits, Bool.and_eq_true] at hadmits
    exact Option.isSome_iff_exists.mp (by simpa [layerSearch, Graph.source] using hadmits.1.1)

theorem nextEntry_spec {entry : ℕ} {found : List (ℕ × δ)} (hentry : ∃ n, g.get entry = some n)
    (hne : entry ≠ q) (hnot : q ∉ found.map Prod.fst)
    (hfound : ∀ p ∈ found, ∃ n, g.get p.1 = some n) :
    (∃ n, g.get (nextEntry g entry found) = some n) ∧ nextEntry g entry found ≠ q := by
  unfold nextEntry
  cases hfind : found.find? fun c => g.isPublished c.1 with
  | none => exact ⟨hentry, hne⟩
  | some p =>
    have hmem := List.mem_of_find?_eq_some hfind
    exact ⟨hfound p hmem, fun heq => hnot (heq ▸ List.mem_map_of_mem hmem)⟩

/-- The descent ends at a node other than the new one. -/
theorem descend_spec {level : ℕ} (hfree : ∀ x lc, q ∉ g.neighbors x lc) {steps entry : ℕ}
    (hentry : ∃ n, g.get entry = some n) (hne : entry ≠ q) :
    ∃ e, descend C g query level steps entry = some e ∧ (∃ n, g.get e = some n) ∧ e ≠ q := by
  induction steps generalizing entry with
  | zero => exact ⟨entry, rfl, hentry, hne⟩
  | succ steps ih =>
    obtain ⟨found, hfound, -, hnot, hnodes⟩ := searchLayer_avoids (C := C) hentry hne
      fun x => hfree x _
    obtain ⟨hnext, hnext_ne⟩ := nextEntry_spec hentry hne hnot hnodes
    rw [descend, hfound, Option.bind_some]
    exact ih hnext hnext_ne

/-- The layers below `lc`: each is searched before it names the new node. -/
theorem buildLayers_spec {entry : ℕ} (h : Linked C g) (hentry : ∃ n, g.get entry = some n)
    (hne : entry ≠ q) (hnode : ∃ n, g.get q = some n ∧ lc ≤ n.level + 1)
    (hfree : ∀ k < lc, ∀ x, q ∉ g.neighbors x k) (hempty : ∀ k < lc, g.neighbors q k = []) :
    ∃ g', buildLayers C q query lc entry g = some (.ok (), g') ∧ Linked C g' ∧
      Rewired (fun _ => True) g g' := by
  induction lc generalizing entry g with
  | zero => exact ⟨g, rfl, h, .refl g⟩
  | succ lc ih =>
    obtain ⟨n, hn, hlevel⟩ := hnode
    obtain ⟨found, hfound, hnodup, hnot, hnodes⟩ := searchLayer_avoids (C := C) hentry hne
      (hfree lc (Nat.lt_succ_self lc))
    obtain ⟨hnext, hnext_ne⟩ := nextEntry_spec hentry hne hnot hnodes
    obtain ⟨hchosen, hsub, -⟩ := selectNeighborsHeuristic_spec (C := C) found C.m
      (pairwiseDistance C g) hnodup
    obtain ⟨g₁, hconnect, hlinked, hrewired⟩ := connect_spec h (q := q)
      ⟨⟨n, hn, by omega⟩, hchosen, fun hmem => hnot (hsub q hmem),
        fun x _ => by rw [hempty lc (Nat.lt_succ_self lc)]; exact List.not_mem_nil,
        fun x _ => hfree lc (Nat.lt_succ_self lc) x⟩
    have hkeep : ∀ k < lc, ∀ x, g₁.neighbors x k = g.neighbors x k := fun k hk x =>
      hrewired.neighbors_eq (Nat.ne_of_lt hk) x
    obtain ⟨m, hm⟩ := hnext
    obtain ⟨m', hm', -⟩ := hrewired.get hm
    obtain ⟨n', hn', -, -, hlevel', -⟩ := hrewired.get hn
    obtain ⟨g', hbuild, hlinked', hrewired'⟩ := ih (g := g₁) hlinked ⟨m', hm'⟩ hnext_ne
      ⟨n', hn', by omega⟩
      (fun k hk x => by rw [hkeep k hk]; exact hfree k (by omega) x)
      (fun k hk => by rw [hkeep k hk]; exact hempty k (by omega))
    refine ⟨g', ?_, hlinked', (hrewired.mono fun _ _ => trivial).trans hrewired'⟩
    rw [buildLayers, hfound, Option.bind_some]
    dsimp only
    rw [hconnect]
    exact hbuild

/-! ### Insertions -/

/-- A graph between two insertions of vectors of dimension `d`. -/
structure Built (C : Config δ) (d : ℕ) (g : Graph) : Prop where
  linked : Linked C g
  published : ∀ n ∈ g.nodes, n.published = true
  level : ∀ n ∈ g.nodes, n.level ≤ levelMask
  vector : ∀ n ∈ g.nodes, n.vector.length = d
  dimension : g.dimension = 0 ∨ g.dimension = d
  entry : (g.nodes = [] ∧ g.entryPoint = none) ∨
    ∃ n ∈ g.nodes, g.entryPoint = some (n.rowId, n.level) ∧ ∀ n' ∈ g.nodes, n'.level ≤ n.level

theorem built_new (C : Config δ) (d : ℕ) : Built C d Graph.new :=
  ⟨⟨List.nodup_nil, by simp [Graph.new], by simp [Graph.new]⟩, by simp [Graph.new],
    by simp [Graph.new], by simp [Graph.new], .inl rfl, .inl ⟨rfl, rfl⟩⟩

theorem Node.layer_new {rowId : ℕ} {vector : Vector} {level : ℕ} (h : lc ≤ level) :
    (Node.new C rowId vector level).layer lc = List.replicate (C.layerSlotCount lc) none := by
  rw [Node.layer, Node.new, List.getD_eq_getElem _ _ (by simp; omega)]
  simp

theorem Slots.occupied_replicate_none (k : ℕ) : Slots.occupied (List.replicate k none) = [] := by
  rw [Slots.occupied, List.filterMap_eq_nil_iff]
  intro slot hslot
  rw [List.eq_of_mem_replicate hslot]
  rfl

/-- The graph with a node more, not yet published and without edges. -/
def Graph.withNode (g : Graph) (n : Node) : Graph := { g with nodes := g.nodes ++ [n] }

theorem Graph.get_withNode_of_ne (h : i ≠ n.rowId) : (g.withNode n).get i = g.get i := by
  have hskip : (n.rowId == i) = false := beq_false_of_ne (Ne.symm h)
  rw [Graph.get, Graph.get, Graph.withNode, List.find?_append]
  simp [hskip]

theorem Graph.get_withNode (h : n.rowId ∉ g.nodes.map Node.rowId) :
    (g.withNode n).get n.rowId = some n := by
  have hnone : g.nodes.find? (fun m => m.rowId == n.rowId) = none := by
    rw [List.find?_eq_none]
    intro m hm heq
    exact h (List.mem_map.mpr ⟨m, hm, by simpa using heq⟩)
  rw [Graph.get, Graph.withNode, List.find?_append, hnone]
  simp

section

variable {q level : ℕ} {vector : Vector}

variable (vector level) in
theorem Linked.withNode (h : Linked C g) (hq : q ∉ g.nodes.map Node.rowId) :
    Linked C (g.withNode (Node.new C q vector level)) := by
  refine ⟨?_, fun n hn => ?_, fun n hn lc hlc => ?_⟩
  · rw [Graph.withNode, List.map_append, List.nodup_append]
    refine ⟨h.ids, List.nodup_singleton _, fun a ha b hb heq => hq ?_⟩
    obtain rfl : b = q := by simpa [Node.new] using hb
    exact heq ▸ ha
  · rcases List.mem_append.mp hn with hn | hn
    · exact h.layers n hn
    · obtain rfl := List.mem_singleton.mp hn
      simp [Node.new]
  · rcases List.mem_append.mp hn with hn | hn
    · obtain ⟨hlen, hnodup, hself, htarget, hdegree⟩ := h.layer n hn lc hlc
      refine ⟨hlen, hnodup, hself, fun x hx => ?_, hdegree⟩
      obtain ⟨y, hy, hlevel⟩ := htarget x hx
      refine ⟨y, ?_, hlevel⟩
      rw [Graph.get_withNode_of_ne, hy]
      rintro rfl
      exact hq (List.mem_map.mpr ⟨y, Graph.mem_of_get hy, Graph.get_rowId hy⟩)
    · obtain rfl := List.mem_singleton.mp hn
      have hlevel : lc ≤ level := hlc
      rw [Node.layer_new hlevel]
      have hocc := Slots.occupied_replicate_none (C.layerSlotCount lc)
      exact ⟨List.length_replicate, by rw [hocc]; exact List.nodup_nil, by rw [hocc]; simp,
        by rw [hocc]; simp, by rw [hocc]; exact Nat.zero_le _⟩

variable (vector level) in
/-- Nobody names the new node yet, and it names nobody. -/
theorem Linked.neighbors_withNode (h : Linked C g) (hq : q ∉ g.nodes.map Node.rowId) (lc x : ℕ) :
    q ∉ (g.withNode (Node.new C q vector level)).neighbors x lc ∧
      (g.withNode (Node.new C q vector level)).neighbors q lc = [] := by
  have hown : (g.withNode (Node.new C q vector level)).neighbors q lc = [] := by
    have hget : (g.withNode (Node.new C q vector level)).get q =
        some (Node.new C q vector level) := Graph.get_withNode hq
    rw [Graph.neighbors, hget]
    dsimp only
    split
    · rename_i hlc
      have hlevel : lc ≤ level := hlc
      rw [Node.neighbors, Node.layer_new hlevel, Slots.occupied_replicate_none]
    · rfl
  refine ⟨fun hmem => ?_, hown⟩
  by_cases hx : x = q
  · rw [hx, hown] at hmem
    cases hmem
  · rw [Graph.neighbors, Graph.get_withNode_of_ne hx] at hmem
    cases hget : g.get x with
    | none =>
      rw [hget] at hmem
      cases hmem
    | some n =>
      rw [hget] at hmem
      dsimp only at hmem
      split at hmem
      · rename_i hlc
        obtain ⟨y, hy, -⟩ := (h.neighbors hget hlc).2.target q hmem
        exact hq (List.mem_map.mpr ⟨y, Graph.mem_of_get hy, Graph.get_rowId hy⟩)
      · cases hmem

end

theorem Linked.of_nodes (h : Linked C g) (hnodes : g'.nodes = g.nodes) : Linked C g' := by
  have hget : ∀ i, g'.get i = g.get i := fun i => by rw [Graph.get, Graph.get, hnodes]
  refine ⟨hnodes ▸ h.ids, hnodes ▸ h.layers, fun n hn lc hlc => ?_⟩
  obtain ⟨hlen, hnodup, hself, htarget, hdegree⟩ := h.layer n (hnodes ▸ hn) lc hlc
  exact ⟨hlen, hnodup, hself, fun x hx => by rw [hget]; exact htarget x hx, hdegree⟩

theorem Linked.markPublished (h : Linked C g) (i : ℕ) : Linked C (g.markPublished i) := by
  have hids : (g.markPublished i).nodes.map Node.rowId = g.nodes.map Node.rowId :=
    Graph.modify_rowIds g i fun _ => rfl
  have hget : ∀ x y, g.get x = some y → ∃ y', (g.markPublished i).get x = some y' ∧
      y'.level = y.level := by
    intro x y hy
    have hmodify := Graph.get_modify g i x (f := fun n => { n with published := true })
      fun _ => rfl
    rw [Graph.markPublished, hmodify]
    by_cases hx : x = i
    · subst hx
      rw [if_pos rfl, hy]
      exact ⟨_, rfl, rfl⟩
    · rw [if_neg hx]
      exact ⟨y, hy, rfl⟩
  have hnode : ∀ n ∈ (g.markPublished i).nodes, ∃ m ∈ g.nodes, n.rowId = m.rowId ∧
      n.level = m.level ∧ n.layers = m.layers := by
    intro n hn
    obtain ⟨m, hm, rfl⟩ := List.mem_map.mp hn
    refine ⟨m, hm, ?_⟩
    split <;> exact ⟨rfl, rfl, rfl⟩
  refine ⟨hids ▸ h.ids, fun n hn => ?_, fun n hn lc hlc => ?_⟩
  · obtain ⟨m, hm, -, hlevel, hlayers⟩ := hnode n hn
    rw [hlevel, hlayers]
    exact h.layers m hm
  · obtain ⟨m, hm, hid, hlevel, hlayers⟩ := hnode n hn
    obtain ⟨hlen, hnodup, hself, htarget, hdegree⟩ := h.layer m hm lc (hlevel ▸ hlc)
    have hlayer : n.layer lc = m.layer lc := by rw [Node.layer, Node.layer, hlayers]
    rw [hlayer, hid]
    refine ⟨hlen, hnodup, hself, fun x hx => ?_, hdegree⟩
    obtain ⟨y, hy, hy'⟩ := htarget x hx
    obtain ⟨y', hget', hlevel'⟩ := hget x y hy
    exact ⟨y', hget', hlevel' ▸ hy'⟩

/-- Every node is one of `g` or the new one, published once the new one is. -/
theorem Rewired.marked {level : ℕ} {vector : Vector} (h : Built C d g) (hvector : vector.length = d)
    (hlevel : level ≤ levelMask)
    (hr : Rewired (fun _ => True) (g.withNode (Node.new C q vector level)) g') :
    (∀ n ∈ (g'.markPublished q).nodes,
      n.published = true ∧ n.level ≤ levelMask ∧ n.vector.length = d) ∧
    (g'.markPublished q).nodes.map (fun n => (n.rowId, n.level)) =
      g.nodes.map (fun n => (n.rowId, n.level)) ++ [(q, level)] := by
  constructor
  · intro n hn
    obtain ⟨m', hm', rfl⟩ := List.mem_map.mp hn
    obtain ⟨m, hm, hid, hvec, hlev, -, hpub, -⟩ := exists_left_of_forall₂ hr.nodes hm'
    rcases List.mem_append.mp hm with hm | hm
    · have hold : m'.published = true ∧ m'.level ≤ levelMask ∧ m'.vector.length = d := by
        rw [hpub, hlev, hvec]
        exact ⟨h.published m hm, h.level m hm, h.vector m hm⟩
      split
      · exact ⟨rfl, hold.2⟩
      · exact hold
    · obtain rfl := List.mem_singleton.mp hm
      have hid : m'.rowId = q := hid
      rw [if_pos hid]
      refine ⟨rfl, ?_, ?_⟩
      · change m'.level ≤ levelMask
        rw [hlev]
        exact hlevel
      · change m'.vector.length = d
        rw [hvec]
        exact hvector
  · have hmark : (g'.markPublished q).nodes.map (fun n => (n.rowId, n.level)) =
        g'.nodes.map fun n => (n.rowId, n.level) := by
      rw [Graph.markPublished, Graph.modify, List.map_map]
      refine List.map_congr_left fun n _ => ?_
      dsimp only [Function.comp]
      split <;> rfl
    rw [hmark, map_eq_of_forall₂ (f := fun n : Node => (n.rowId, n.level))
      (hr.nodes.imp fun _ _ hn => by rw [hn.1, hn.2.2.1]), Graph.withNode, List.map_append]
    rfl

theorem exists_node_of_mem_map (q level : ℕ)
    (h : (q, level) ∈ g.nodes.map fun n => (n.rowId, n.level)) :
    ∃ n ∈ g.nodes, n.rowId = q ∧ n.level = level := by
  obtain ⟨n, hn, heq⟩ := List.mem_map.mp h
  exact ⟨n, hn, congrArg Prod.fst heq, congrArg Prod.snd heq⟩

/-- The end of an insertion: the entry point is the higher of the two. -/
theorem Built.finish {level : ℕ} {vector : Vector} {e : Node} (h : Built C d g)
    (hvector : vector.length = d) (hlevel : level ≤ levelMask) (he : e ∈ g.nodes)
    (hentry : g.entryPoint = some (e.rowId, e.level)) (hmax : ∀ n ∈ g.nodes, n.level ≤ e.level)
    (hlinked : Linked C g')
    (hr : Rewired (fun _ => True) (g.withNode (Node.new C q vector level)) g') :
    Built C d ((g'.markPublished q).advanceIfHigher q level) ∧
      ((g'.markPublished q).advanceIfHigher q level).nodes.map (fun n => (n.rowId, n.level)) =
        g.nodes.map (fun n => (n.rowId, n.level)) ++ [(q, level)] := by
  obtain ⟨hall, hfields⟩ := hr.marked h hvector hlevel
  have hentry' : (g'.markPublished q).entryPoint = some (e.rowId, e.level) := by
    rw [← hentry]
    exact hr.entryPoint
  have hdim : (g'.markPublished q).dimension = 0 ∨ (g'.markPublished q).dimension = d := by
    change g'.dimension = 0 ∨ g'.dimension = d
    rw [hr.dimension]
    exact h.dimension
  have hlinked₁ := hlinked.markPublished q
  have hbelow : ∀ n ∈ (g'.markPublished q).nodes, n.level ≤ e.level ∨ n.level = level := by
    intro n hn
    have hmem : (n.rowId, n.level) ∈ g.nodes.map (fun n => (n.rowId, n.level)) ++ [(q, level)] := by
      rw [← hfields]
      exact List.mem_map.mpr ⟨n, hn, rfl⟩
    rcases List.mem_append.mp hmem with hmem | hmem
    · obtain ⟨m, hm, -, hlev⟩ := exists_node_of_mem_map _ _ hmem
      exact .inl (hlev ▸ hmax m hm)
    · exact .inr (congrArg Prod.snd (List.mem_singleton.mp hmem))
  unfold Graph.advanceIfHigher
  rw [hentry', Option.all_some]
  by_cases hhigher : e.level < level
  · rw [if_pos (by simpa using hhigher)]
    refine ⟨⟨hlinked₁.of_nodes rfl, fun n hn => (hall n hn).1,
      fun n hn => (hall n hn).2.1, fun n hn => (hall n hn).2.2, hdim, .inr ?_⟩, hfields⟩
    obtain ⟨n, hn, hid, hlev⟩ := exists_node_of_mem_map (g := g'.markPublished q) q level
      (by rw [hfields]; simp)
    refine ⟨n, hn, by rw [hid, hlev], fun n' hn' => ?_⟩
    rcases hbelow n' hn' with hle | heq <;> omega
  · rw [if_neg (by simpa using hhigher)]
    refine ⟨⟨hlinked₁, fun n hn => (hall n hn).1, fun n hn => (hall n hn).2.1,
      fun n hn => (hall n hn).2.2, hdim, .inr ?_⟩, hfields⟩
    obtain ⟨n, hn, hid, hlev⟩ := exists_node_of_mem_map (g := g'.markPublished q) e.rowId
      e.level (by
        rw [hfields]
        exact List.mem_append_left _ (List.mem_map.mpr ⟨e, he, rfl⟩))
    refine ⟨n, hn, by rw [hid, hlev, hentry'], fun n' hn' => ?_⟩
    rcases hbelow n' hn' with hle | heq <;> omega

theorem Built.first {level : ℕ} {vector : Vector} (h : Built C d g) (hnil : g.nodes = [])
    (hq : q ∉ g.nodes.map Node.rowId) (hvector : vector.length = d) (hlevel : level ≤ levelMask) :
    Built C d (({ g.withNode (Node.new C q vector level) with
        entryPoint := some (q, level) } : Graph).markPublished q) ∧
      (({ g.withNode (Node.new C q vector level) with
        entryPoint := some (q, level) } : Graph).markPublished q).nodes.map
          (fun n => (n.rowId, n.level)) = g.nodes.map (fun n => (n.rowId, n.level)) ++
            [(q, level)] := by
  obtain ⟨hall, hfields⟩ := (Rewired.refl (g.withNode (Node.new C q vector level))).marked h
    hvector hlevel
  have hlinked := (h.linked.withNode level vector hq).markPublished q
  refine ⟨⟨hlinked.of_nodes rfl, fun n hn => (hall n hn).1, fun n hn => (hall n hn).2.1,
    fun n hn => (hall n hn).2.2, h.dimension, .inr ?_⟩, hfields⟩
  rw [hnil, List.map_nil, List.nil_append] at hfields
  obtain ⟨n, hn, hid, hlev⟩ := exists_node_of_mem_map
    (g := (g.withNode (Node.new C q vector level)).markPublished q) q level
    (by rw [hfields]; exact List.mem_singleton.mpr rfl)
  refine ⟨n, hn, ?_, fun n' hn' => ?_⟩
  · rw [hid, hlev]
    rfl
  · have hmem : (n'.rowId, n'.level) ∈ [(q, level)] := by
      rw [← hfields]
      exact List.mem_map.mpr ⟨n', hn', rfl⟩
    have hlev' := congrArg Prod.snd (List.mem_singleton.mp hmem)
    exact (hlev'.trans hlev.symm).le

theorem Built.insertAt {level : ℕ} {vector : Vector} (h : Built C d g)
    (hq : q ∉ g.nodes.map Node.rowId) (hvector : vector.length = d) (hlevel : level ≤ levelMask) :
    ∃ g', insertAt C q level vector (g.withNode (Node.new C q vector level)) =
        some (.ok (), g') ∧ Built C d g' ∧
      g'.nodes.map (fun n => (n.rowId, n.level)) =
        g.nodes.map (fun n => (n.rowId, n.level)) ++ [(q, level)] := by
  have hlinked := h.linked.withNode level vector hq
  have hfree := h.linked.neighbors_withNode level vector hq
  have hget : (g.withNode (Node.new C q vector level)).get q =
      some (Node.new C q vector level) := Graph.get_withNode hq
  rcases h.entry with ⟨hnil, hnone⟩ | ⟨e, he, hentry, hmax⟩
  · obtain ⟨hbuilt, hfields⟩ := h.first hnil hq hvector hlevel
    refine ⟨_, ?_, hbuilt, hfields⟩
    rw [Hnsw.insertAt, show (g.withNode (Node.new C q vector level)).entryPoint = none from hnone]
  · have hne : e.rowId ≠ q := fun heq => hq (heq ▸ List.mem_map_of_mem he)
    have hgete : (g.withNode (Node.new C q vector level)).get e.rowId = some e := by
      rw [Graph.get_withNode_of_ne hne]
      exact Graph.get_of_mem h.linked.ids he
    have hpublished : (g.withNode (Node.new C q vector level)).isPublished e.rowId = true := by
      rw [Graph.isPublished, hgete, Option.any_some, h.published e he]
    obtain ⟨e', hdescend, hnode', hne'⟩ := descend_spec (C := C) (fun x lc => (hfree lc x).1)
      ⟨e, hgete⟩ hne
    have hlayers : min e.level level + 1 ≤ (Node.new C q vector level).level + 1 :=
      Nat.succ_le_succ (min_le_right _ _)
    obtain ⟨g', hbuild, hlinked', hrewired⟩ := buildLayers_spec hlinked hnode' hne'
      ⟨_, hget, hlayers⟩ (fun k _ x => (hfree k x).1) (fun k _ => (hfree k q).2)
    obtain ⟨hbuilt, hfields⟩ := h.finish hvector hlevel he hentry hmax hlinked' hrewired
    refine ⟨_, ?_, hbuilt, hfields⟩
    rw [Hnsw.insertAt, show (g.withNode (Node.new C q vector level)).entryPoint =
      some (e.rowId, e.level) from hentry]
    dsimp only
    rw [if_pos hpublished, hdescend, Option.bind_some, hbuild, Option.map_some]

theorem Built.insert {level : ℕ} {vector : Vector} (h : Built C d g)
    (hq : q ∉ g.nodes.map Node.rowId) (hrange : q < addressableCapacity)
    (hvector : vector.length = d) :
    ∃ g', insert C q vector level g = some (.ok (), g') ∧ Built C d g' ∧
      g'.nodes.map (fun n => (n.rowId, n.level)) =
        g.nodes.map (fun n => (n.rowId, n.level)) ++ [(q, min level levelMask)] := by
  set dim := if g.dimension = 0 then vector.length else g.dimension with hdim
  have hdim' : dim = d := by
    rw [hdim, hvector]
    rcases h.dimension with h0 | hd
    · rw [if_pos h0]
    · rw [hd]
      split <;> simp_all
  have hcheck : g.checkOrEstablishDimension vector.length =
      .ok { g with dimension := dim } := by
    rw [Graph.checkOrEstablishDimension, ← hdim]
    exact if_neg fun hbad => hbad.2 (hvector.trans hdim'.symm)
  have hbuilt : Built C d { g with dimension := dim } :=
    ⟨h.linked.of_nodes rfl, h.published, h.level, h.vector, .inr hdim', h.entry⟩
  have hfresh : Graph.get { g with dimension := dim } q = none := by
    rw [Graph.get, List.find?_eq_none]
    intro n hn heq
    exact hq (List.mem_map.mpr ⟨n, hn, by simpa using heq⟩)
  obtain ⟨g', hg', hresult⟩ := hbuilt.insertAt hq hvector
    (min_le_right _ _)
  refine ⟨g', ?_, hresult⟩
  rw [Hnsw.insert, hcheck]
  dsimp only
  have hid : (Node.new C q vector (min level levelMask)).rowId = q := rfl
  rw [Graph.insertNode, hid, if_neg (Nat.not_le_of_lt hrange), hfresh,
    if_neg (show ¬ (none : Option Node).isSome = true from Bool.false_ne_true)]
  exact hg'

theorem Built.insertAll {rows : List Row} (h : Built C d g)
    (hnodup : (g.nodes.map Node.rowId ++ rows.map Row.rowId).Nodup)
    (hrange : ∀ r ∈ rows, r.rowId < addressableCapacity)
    (hvector : ∀ r ∈ rows, r.vector.length = d) :
    ∃ g', insertAll C rows g = some (.ok (), g') ∧ Built C d g' ∧
      g'.nodes.map (fun n => (n.rowId, n.level)) = g.nodes.map (fun n => (n.rowId, n.level)) ++
        rows.map fun r => (r.rowId, min r.level levelMask) := by
  induction rows generalizing g with
  | nil => exact ⟨g, rfl, h, by simp⟩
  | cons r rows ih =>
    rw [List.forall_mem_cons] at hrange hvector
    have hq : r.rowId ∉ g.nodes.map Node.rowId := fun hmem =>
      (List.nodup_append.mp hnodup).2.2 _ hmem r.rowId (by simp) rfl
    obtain ⟨g₁, hinsert, hbuilt, hfields⟩ := h.insert hq hrange.1 hvector.1
    have hids : g₁.nodes.map Node.rowId = g.nodes.map Node.rowId ++ [r.rowId] := by
      have hfst := congrArg (List.map Prod.fst) hfields
      simpa [Function.comp_def] using hfst
    obtain ⟨g', hall, hbuilt', hfields'⟩ := ih hbuilt (by
      rw [hids, List.append_assoc]
      exact hnodup) hrange.2 hvector.2
    refine ⟨g', ?_, hbuilt', ?_⟩
    · rw [Hnsw.insertAll, hinsert, Option.bind_some]
      exact hall
    · rw [hfields', hfields, List.append_assoc, List.map_cons]
      rfl

/-- A layer above the level of a node has no list. -/
theorem Built.degree (h : Built C d g) (hn : n ∈ g.nodes) (lc : ℕ) :
    (n.neighbors lc).length ≤ C.capacity lc := by
  by_cases hlc : lc ≤ n.level
  · exact (h.linked.layer n hn lc hlc).degree
  · have hlen := h.linked.layers n hn
    rw [Node.neighbors, Node.layer, List.getD_eq_default _ _ (by omega)]
    exact Nat.zero_le _

/-- Rows with distinct ids in range and vectors of one dimension are inserted one after
another without an error, whatever their levels and the distances. After each of them
no list is longer than its layer allows, and the entry point is a node of the highest
level. -/
theorem sequential_construction (metric : Metric δ) (heaps : Heaps δ) (relax : δ → δ)
    {maxConnections : ℕ} (hmin : 1 ≤ maxConnections) (efConstruction d : ℕ)
    {rows : List Row} (hnodup : (rows.map Row.rowId).Nodup)
    (hrange : ∀ r ∈ rows, r.rowId < addressableCapacity)
    (hvector : ∀ r ∈ rows, r.vector.length = d) (i : ℕ) :
    ∃ g, insertAll (Config.new metric heaps relax maxConnections efConstruction) (rows.take i)
        Graph.new = some (.ok (), g) ∧
      g.nodes.map (fun n => (n.rowId, n.level)) =
        (rows.take i).map (fun r => (r.rowId, min r.level levelMask)) ∧
      (∀ n ∈ g.nodes, (n.neighbors 0).length ≤ 2 * maxConnections ∧
        ∀ lc ≠ 0, (n.neighbors lc).length ≤ maxConnections) ∧
      (g.nodes = [] ∨ ∃ n ∈ g.nodes, g.entryPoint = some (n.rowId, n.level) ∧
        ∀ n' ∈ g.nodes, n'.level ≤ n.level) := by
  have hsub : (rows.take i).Sublist rows := List.take_sublist i rows
  obtain ⟨g, hall, hbuilt, hfields⟩ := (built_new
    (Config.new metric heaps relax maxConnections efConstruction) d).insertAll
    (hnodup.sublist (hsub.map _))
    (fun r hr => hrange r (hsub.subset hr)) fun r hr => hvector r (hsub.subset hr)
  have hm : max maxConnections 1 = maxConnections := max_eq_left hmin
  refine ⟨g, hall, hfields, fun n hn => ⟨?_, fun lc hlc => ?_⟩, ?_⟩
  · have hdegree : (n.neighbors 0).length ≤ max maxConnections 1 * 2 := hbuilt.degree hn 0
    omega
  · have hdegree := hbuilt.degree hn lc
    rwa [Config.capacity, if_neg hlc, Config.new, hm] at hdegree
  · rcases hbuilt.entry with ⟨hnil, -⟩ | hentry
    · exact .inl hnil
    · exact .inr hentry

/-- Four nodes, where each may keep one neighbour above layer 0. -/
def fourRows : List Row :=
  [⟨7, [⟨false, 0, by decide⟩], 1⟩, ⟨3, [⟨false, 1, by decide⟩], 300⟩,
    ⟨5, [⟨false, 2, by decide⟩], 1⟩, ⟨4, [⟨false, 3, by decide⟩], 0⟩]

def flatMetric : Metric ℕ := ⟨fun _ _ => 0, 0, fun a b => decide (a < b)⟩

theorem sequential_construction_four :
    ∃ g, insertAll (Config.new flatMetric (listHeaps fun a b => decide (a < b)) id 1 2)
        fourRows Graph.new = some (.ok (), g) ∧
      g.nodes.map (fun n => (n.rowId, n.level)) = [(7, 1), (3, 255), (5, 1), (4, 0)] ∧
      g.entryPoint = some (3, 255) ∧ ∀ n ∈ g.nodes, (n.neighbors 1).length ≤ 1 := by
  obtain ⟨g, hall, hfields, hdegree, hentry⟩ := sequential_construction flatMetric
    (listHeaps fun a b => decide (a < b)) id (le_refl 1) 2 1
    (show (fourRows.map Row.rowId).Nodup by decide) (by decide) (by decide) 4
  have hfields : g.nodes.map (fun n => (n.rowId, n.level)) =
    [(7, 1), (3, 255), (5, 1), (4, 0)] := hfields
  refine ⟨g, hall, hfields, ?_, fun n hn => (hdegree n hn).2 1 Nat.one_ne_zero⟩
  rcases hentry with hnil | ⟨n, hn, hentry, hmax⟩
  · rw [hnil] at hfields
    cases hfields
  · have hmem : (n.rowId, n.level) ∈ [(7, 1), (3, 255), (5, 1), (4, 0)] := by
      rw [← hfields]
      exact List.mem_map.mpr ⟨n, hn, rfl⟩
    obtain ⟨top, htop, -, hlevel⟩ := exists_node_of_mem_map (g := g) 3 255
      (by rw [hfields]; decide)
    have hle := hmax top htop
    simp only [List.mem_cons, Prod.mk.injEq, List.not_mem_nil, or_false] at hmem
    have hfound : n.rowId = 3 ∧ n.level = 255 := by omega
    rw [hentry, hfound.1, hfound.2]

end Hnsw

/-! ### The working index of one commit -/

namespace Builder

open Hnsw

variable (B : Builder) {vectors : List Vector}

theorem rows_rowIds (vectors : List Vector) :
    (B.rows vectors).map Row.rowId = List.range vectors.length := by
  rw [rows, List.map_map, List.range_eq_range', ← List.zipIdx_map_snd]
  rfl

/-- The serializer accepts a graph whose row ids are those below a bound. -/
theorem encodable_encoded {C : Config F32} {d count : ℕ} {g : Hnsw.Graph} (hbuilt : Built C d g)
    (hne : count ≠ 0) (hnodes : g.nodes.map Node.rowId = List.range count) :
    (g.encoded count).Encodable count := by
  have hlt : ∀ {i n}, g.get i = some n → i < count := by
    intro i n hget
    rw [← List.mem_range, ← hnodes, ← Graph.get_rowId hget]
    exact List.mem_map_of_mem (Graph.mem_of_get hget)
  have hget : ∀ i ∈ List.range count, ∃ n, g.get i = some n ∧ n.level ≤ levelMask := by
    intro i hi
    rw [← hnodes] at hi
    obtain ⟨n, hn, rfl⟩ := List.mem_map.mp hi
    exact ⟨n, Graph.get_of_mem hbuilt.linked.ids hn, hbuilt.level n hn⟩
  refine ⟨⟨?_, ?_⟩, ?_, ?_⟩
  · refine (List.filterMap_length_eq_length.mpr fun i hi => ?_).trans List.length_range
    obtain ⟨n, hn, -⟩ := hget i hi
    simp [Graph.source, hn]
  · rw [List.all_eq_true]
    intro level hlevel
    obtain ⟨i, hi, hlevel⟩ := List.mem_filterMap.mp hlevel
    obtain ⟨n, hn, hle⟩ := hget i hi
    simp only [Graph.source, hn, Option.map_some, Option.some.injEq] at hlevel
    rw [decide_eq_true_eq, ← hlevel]
    exact Nat.lt_succ_of_le hle
  · rcases hbuilt.entry with ⟨hnil, -⟩ | ⟨n, hn, hentry, -⟩
    · rw [hnil] at hnodes
      exact absurd (List.range_eq_nil.mp hnodes.symm) hne
    · refine ⟨n.rowId, hlt (Graph.get_of_mem hbuilt.linked.ids hn), ?_⟩
      rw [Graph.encoded, hentry]
      rfl
  · simp only [Graph.encoded, List.all_map, List.all_eq_true, Function.comp_apply,
      decide_eq_true_eq]
    intro lc _ i _ x hx
    unfold Graph.neighbors at hx
    split at hx
    · rename_i n hn
      split at hx
      · rename_i hlc
        obtain ⟨y, hy, -⟩ := (hbuilt.linked.layer n (Graph.mem_of_get hn) lc hlc).target x hx
        exact hlt hy
      · cases hx
    · cases hx

/-- Vectors of one dimension, fewer than there are ordinals, are all inserted, and the
serializer accepts the graph. -/
theorem exists_build {dimension : ℕ} (hne : vectors ≠ [])
    (hlen : vectors.length ≤ addressableCapacity)
    (hdim : ∀ v ∈ vectors, v.length = dimension) :
    ∃ graph, B.build vectors = .ok graph ∧ graph.Encodable vectors.length := by
  have hids := B.rows_rowIds vectors
  have hnodup : ((B.rows vectors).map Row.rowId).Nodup := by
    rw [hids]
    exact List.nodup_range
  obtain ⟨g, hall, hbuilt, hfields⟩ := (built_new B.config dimension).insertAll hnodup
    (fun r hr => by
      have hmem := List.mem_map_of_mem (f := Row.rowId) hr
      rw [hids, List.mem_range] at hmem
      exact hmem.trans_le hlen)
    fun r hr => by
      obtain ⟨p, hp, rfl⟩ := List.mem_map.mp hr
      exact hdim _ (List.fst_mem_of_mem_zipIdx hp)
  have hnodes : g.nodes.map Node.rowId = List.range vectors.length := by
    have hfst := congrArg (List.map Prod.fst) hfields
    rw [List.map_map, List.map_append, List.map_map, List.map_map] at hfst
    rw [← hids]
    exact hfst
  exact ⟨g.encoded vectors.length, by rw [build, hall],
    encodable_encoded hbuilt (by simpa using hne) hnodes⟩

end Builder

end StrataDB.Index
