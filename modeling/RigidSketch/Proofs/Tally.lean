import Mathlib.Algebra.BigOperators.Group.List.Basic
import Mathlib.Algebra.GroupWithZero.Nat
import Mathlib.Data.List.Nodup
import RigidSketch.Proofs.Invariants

/-! How many constraints a cluster takes. Its first two elements take one and every other
element two; whatever else is in the cluster is redundant. -/

namespace RigidSketch

open LeastSquares (solveLinear)

/-- Four points with all distances between them. -/
def Call.braced : List Call :=
  triangle ++ [addPoint false 2 (-3), constrain .distance ⟨0⟩ ⟨3⟩ 4,
    constrain .distance ⟨1⟩ ⟨3⟩ 4, constrain .distance ⟨2⟩ ⟨3⟩ 5]

namespace OrderedSet

variable {α : Type} [DecidableEq α]

theorem toList_insertAll {s : OrderedSet α} {xs : List α} (hn : xs.Nodup)
    (hd : ∀ x ∈ xs, x ∉ s) : (s.insertAll xs).toList = s.toList ++ xs := by
  induction xs generalizing s with
  | nil => simp [insertAll]
  | cons x xs ih =>
    have hcons : s.insertAll (x :: xs) = (s.insert x).insertAll xs := rfl
    obtain ⟨hx, hn⟩ := List.nodup_cons.mp hn
    have hrest : ∀ y ∈ xs, y ∉ s.insert x := by
      intro y hy hm
      rcases mem_insert.mp hm with hm | rfl
      · exact hd y (List.mem_cons_of_mem _ hy) hm
      · exact hx hy
    rw [hcons, ih hn hrest, toList_insert, if_neg (hd x List.mem_cons_self)]
    simp

theorem size_insert_of_not_mem {s : OrderedSet α} {a : α} (h : a ∉ s) :
    (s.insert a).size = s.size + 1 := by
  simp [size, toList_insert, h]

end OrderedSet

theorem Cluster.not_mem_of_outsideEnd? {k : Cluster} {c : Constraint} {e : ElementId}
    (h : k.outsideEnd? c = some e) : e ∉ k.elements := by
  unfold outsideEnd? at h
  split at h
  · rename_i _ hs
    obtain rfl := Option.some.inj h
    exact of_decide_eq_false hs
  · rename_i hf _
    obtain rfl := Option.some.inj h
    exact of_decide_eq_false hf
  · cases h

/-- The constraints that placed the elements of a growth. -/
def Growth.used (g : Growth) : List ConstraintId :=
  g.cluster.constraints.toList.filter (· ∉ g.excess)

namespace Sketch

theorem nodup_links (s : Sketch) (k : Cluster) : ((s.links k).map (·.2)).Nodup := by
  unfold links
  rw [List.map_filterMap]
  refine List.Nodup.filterMap ?_ (s.free.nodup.sublist List.filter_sublist)
  intro id id' c hc hc'
  simp only [Option.mem_def, Option.map_map, Option.map_eq_some_iff] at hc hc'
  obtain ⟨_, _, rfl⟩ := hc
  obtain ⟨_, _, he⟩ := hc'
  exact he.symm

theorem nodup_of_admission? {s : Sketch} {k : Cluster} {a : Admission}
    (h : s.admission? k = some a) : a.constraints.Nodup := by
  obtain ⟨e, _, he⟩ := List.exists_of_findSome?_eq_some h
  obtain ⟨p, hp, rfl⟩ := Option.map_eq_some_iff.mp he
  have hids : (((s.links k).filter (·.1 = e)).map (·.2)).Nodup :=
    (s.nodup_links k).sublist (List.filter_sublist.map _)
  have hne : p.1 ≠ p.2 := by
    unfold usablePair? at hp
    split at hp
    · have hkeys : ((((s.links k).filter (·.1 = e)).map (·.2)).map id).Nodup := by simpa using hids
      exact key_ne_of_mem_pairs hkeys (List.mem_of_find?_eq_some hp)
    · cases hp
  refine List.nodup_cons.mpr ⟨?_, List.nodup_cons.mpr ⟨?_, hids.sublist List.filter_sublist⟩⟩
  · simp [hne]
  · simp

theorem used_take {s : Sketch} {g : Growth} {a : Admission}
    (ha : s.admission? g.cluster = some a) (hx : ∀ id ∈ g.excess, id ∈ g.cluster.constraints) :
    (g.take a).used = g.used ++ [a.first, a.second] := by
  have hnew : ∀ id ∈ a.constraints, id ∉ g.cluster.constraints := by
    intro id hid
    have hrem := (mem_links.mp (mem_links_of_admission? ha hid)).1
    simpa using (List.mem_filter.mp hrem).2
  have hnd := nodup_of_admission? ha
  have hlist : (g.take a).cluster.constraints.toList =
      g.cluster.constraints.toList ++ ([a.first, a.second] ++ a.excess) :=
    OrderedSet.toList_insertAll hnd hnew
  have hexcess : ∀ id, id ∈ (g.take a).excess ↔ id ∈ g.excess ∨ id ∈ a.excess :=
    fun id => List.mem_append
  have hold : g.cluster.constraints.toList.filter (· ∉ (g.take a).excess) = g.used := by
    refine List.filter_congr fun id hid => ?_
    have hin : id ∉ a.excess := fun hin => hnew id (by simp [Admission.constraints, hin]) hid
    simp [hexcess, hin]
  have hpair : [a.first, a.second].filter (· ∉ (g.take a).excess) = [a.first, a.second] := by
    refine List.filter_eq_self.mpr fun id hid => ?_
    have hmem : id ∈ a.constraints := List.mem_append_left a.excess hid
    have hout : id ∉ g.excess := fun hin => hnew id hmem (hx id hin)
    have hrest : id ∉ a.excess := List.disjoint_of_nodup_append
      (show ([a.first, a.second] ++ a.excess).Nodup from hnd) hid
    simp [hexcess, hout, hrest]
  have hlast : a.excess.filter (· ∉ (g.take a).excess) = [] :=
    List.filter_eq_nil_iff.mpr fun id hid => by simp [hexcess, hid]
  rw [Growth.used, hlist, List.filter_append, List.filter_append, hold, hpair, hlast,
    List.append_nil]

/-- A growth has used as many constraints as it takes to place its elements. -/
structure Balanced (g : Growth) : Prop where
  excess : ∀ id ∈ g.excess, id ∈ g.cluster.constraints
  used : g.used.length + 3 = 2 * g.cluster.elements.size

theorem Balanced.take {s : Sketch} {g : Growth} {a : Admission} (h : Balanced g)
    (ha : s.admission? g.cluster = some a) : Balanced (g.take a) := by
  have hfirst : a.first ∈ a.constraints := List.mem_cons_self
  obtain ⟨_, c, _, hout⟩ := mem_links.mp (mem_links_of_admission? ha hfirst)
  have hsize : (g.take a).cluster.elements.size = g.cluster.elements.size + 1 :=
    OrderedSet.size_insert_of_not_mem (Cluster.not_mem_of_outsideEnd? hout)
  have hused := h.used
  refine ⟨fun id hid => ?_, ?_⟩
  · rcases List.mem_append.mp hid with hid | hid
    · simp [Growth.take, h.excess id hid]
    · simp [Growth.take, Admission.constraints, hid]
  · rw [used_take ha h.excess, List.length_append, hsize]
    simp only [List.length_cons, List.length_nil]
    omega

theorem Balanced.grow {s : Sketch} {g : Growth} (h : Balanced g) : Balanced (s.grow g) := by
  fun_induction Sketch.grow s g with
  | case1 g a ha ih => exact ih (h.take ha)
  | case2 => exact h

theorem balanced_growFrom {s : Sketch} (hg : Grounded s) {seed : ConstraintId} {c : Constraint}
    (hc : s.constraints.get? seed = some c) (k : ClusterId) : Balanced (s.growFrom k seed) := by
  have hends : c.ends.Nodup := by
    simpa [Constraint.ends] using hg.proper c (ConstraintTable.mem_of_get? hc).1
  have helements : (s.seedGrowth k seed).cluster.elements.toList = c.ends := by
    simp only [seedGrowth, hc]
    exact OrderedSet.toList_insertAll hends fun _ _ => OrderedSet.not_mem_empty _
  have hused : (s.seedGrowth k seed).used = [seed] := rfl
  refine Balanced.grow ⟨fun _ h => absurd h List.not_mem_nil, ?_⟩
  rw [hused, OrderedSet.size, helements]
  rfl

/-- The constraints of a cluster that are not redundant. -/
def essential (s : Sketch) (k : Cluster) : OrderedSet ConstraintId :=
  k.constraints.filter (· ∉ s.conflicting)

def Tallied (s : Sketch) : Prop :=
  ∀ k ∈ s.clusters, (s.essential k).size + 3 = 2 * k.elements.size

theorem mem_conflicting_commit_iff {s : Sketch} {g : Growth} {id : ConstraintId} :
    id ∈ (s.commit g).conflicting ↔ id ∈ s.conflicting ∨ id ∈ g.excess ∨
      id ∈ { s with free := s.free.eraseAll g.cluster.constraints.toList }.inside g.cluster := by
  simp only [commit, OrderedSet.mem_insertAll]
  tauto

theorem essential_committed {s : Sketch} {g : Growth} (hp : Partitioned s) (hg : Grown s g) :
    ((s.commit g).essential (s.committed g)).toList = g.used := by
  let rest : Sketch := { s with free := s.free.eraseAll g.cluster.constraints.toList }
  have hnew : ∀ id ∈ rest.inside g.cluster, id ∉ g.cluster.constraints :=
    fun id hid => (OrderedSet.mem_eraseAll.mp (mem_inside.mp hid).1).2
  have hlist : (s.committed g).constraints.toList =
      g.cluster.constraints.toList ++ rest.inside g.cluster :=
    OrderedSet.toList_insertAll (rest.free.nodup.sublist List.filter_sublist) hnew
  have hgrown : g.cluster.constraints.toList.filter (· ∉ (s.commit g).conflicting) = g.used := by
    refine List.filter_congr fun id hid => ?_
    have hin : id ∉ rest.inside g.cluster := fun hin => hnew id hin hid
    -- what conflicted before is in an earlier cluster, and the growth took free constraints
    have hold : id ∉ s.conflicting := by
      intro hx
      obtain ⟨k, hk, hm⟩ := hp.conflicting id hx
      exact hp.taken k hk id hm (hg.free id hid)
    have hiff : id ∈ (s.commit g).conflicting ↔ id ∈ g.excess := by
      rw [mem_conflicting_commit_iff]
      exact ⟨fun h => (h.resolve_left hold).resolve_right hin, fun h => Or.inr (Or.inl h)⟩
    simp [hiff]
  have hinside : (rest.inside g.cluster).filter (· ∉ (s.commit g).conflicting) = [] := by
    refine List.filter_eq_nil_iff.mpr fun id hid => ?_
    simpa using mem_conflicting_commit_iff.mpr (Or.inr (Or.inr hid))
  have happ : ((s.commit g).essential (s.committed g)).toList =
      (s.committed g).constraints.toList.filter (· ∉ (s.commit g).conflicting) := rfl
  rw [happ, hlist, List.filter_append, hgrown, hinside, List.append_nil]

theorem essential_commit_of_mem {s : Sketch} {g : Growth} (hp : Partitioned s) (hg : Grown s g)
    {k : Cluster} (hk : k ∈ s.clusters) : (s.commit g).essential k = s.essential k := by
  refine OrderedSet.ext (List.filter_congr fun id hid => ?_)
  have hfree : id ∉ s.free := hp.taken k hk id hid
  have hexcess : id ∉ g.excess := fun hx => hfree (hg.free id (hg.excess id hx))
  have hinside : id ∉
      { s with free := s.free.eraseAll g.cluster.constraints.toList }.inside g.cluster :=
    fun hin => hfree (OrderedSet.mem_eraseAll.mp (mem_inside.mp hin).1).1
  simp [mem_conflicting_commit_iff, hexcess, hinside]

theorem Tallied.commit {s : Sketch} {g : Growth} (h : Tallied s) (hp : Partitioned s)
    (hg : Grown s g) (hb : Balanced g) : Tallied (s.commit g) := by
  intro k hk
  rcases mem_clusters_commit.mp hk with hk | rfl
  · rw [essential_commit_of_mem hp hg hk]
    exact h k hk
  · rw [OrderedSet.size, essential_committed hp hg]
    exact hb.used

theorem tallied_build {s : Sketch} (hg : Grounded s) (hb : s.built = false) :
    Tallied s.build := by
  refine build_induction hg hb nofun (fun _ _ _ h => h) fun t k seed ht ha hseed h => ?_
  obtain ⟨c, hc⟩ := ha.partitioned.exists_get? hseed
  exact h.commit ha.partitioned (grown_growFrom hseed hc k) (balanced_growFrom ht hc k)

theorem nodup_flatMap_constraints {s : Sketch} (h : Partitioned s)
    {f : Cluster → List ConstraintId} (hf : ∀ k, (f k).Sublist k.constraints.toList) :
    (s.clusters.flatMap f).Nodup := by
  refine List.nodup_flatMap.mpr ⟨fun k _ => k.constraints.nodup.sublist (hf k), ?_⟩
  exact h.disjoint.imp fun hkl id hk hl => hkl id ((hf _).subset hk) ((hf _).subset hl)

theorem Partitioned.length_constraints {s : Sketch} (hg : Grounded s) (h : Partitioned s) :
    s.constraints.constraints.length =
      s.free.size + (s.clusters.map (·.constraints.size)).sum := by
  have hnd : (s.free.toList ++ s.clusters.flatMap (·.constraints.toList)).Nodup := by
    refine List.nodup_append.mpr ⟨s.free.nodup,
      nodup_flatMap_constraints h fun _ => List.Sublist.refl _, ?_⟩
    rintro id hf _ hid rfl
    obtain ⟨k, hk, hm⟩ := List.mem_flatMap.mp hid
    exact h.taken k hk id hm hf
  have hperm : s.constraints.ids.Perm
      (s.free.toList ++ s.clusters.flatMap (·.constraints.toList)) := by
    refine (List.perm_ext_iff_of_nodup (ConstraintTable.nodup_ids hg.constraints) hnd).mpr ?_
    intro id
    rw [List.mem_append, List.mem_flatMap]
    exact h.cover id
  have hlen := hperm.length_eq
  rw [List.length_append, List.length_flatMap, ConstraintTable.ids, List.length_map] at hlen
  exact hlen

theorem Partitioned.size_conflicting {s : Sketch} (h : Partitioned s) :
    s.conflicting.size =
      (s.clusters.map fun k => (k.constraints.filter (· ∈ s.conflicting)).size).sum := by
  have hperm : s.conflicting.toList.Perm
      (s.clusters.flatMap fun k => (k.constraints.filter (· ∈ s.conflicting)).toList) := by
    refine (List.perm_ext_iff_of_nodup s.conflicting.nodup
      (nodup_flatMap_constraints h fun _ => List.filter_sublist)).mpr fun id => ?_
    rw [List.mem_flatMap]
    constructor
    · intro hid
      obtain ⟨k, hk, hm⟩ := h.conflicting id hid
      exact ⟨k, hk, OrderedSet.mem_filter.mpr ⟨hm, decide_eq_true hid⟩⟩
    · rintro ⟨k, _, hm⟩
      exact of_decide_eq_true (OrderedSet.mem_filter.mp hm).2
  have hlen := hperm.length_eq
  rw [List.length_flatMap] at hlen
  exact hlen

theorem size_constraints_eq (s : Sketch) (k : Cluster) : k.constraints.size =
    (k.constraints.filter (· ∈ s.conflicting)).size + (s.essential k).size := by
  have h := List.length_eq_length_filter_add (l := k.constraints.toList)
    (fun id => decide (id ∈ s.conflicting))
  simpa [OrderedSet.size, essential, OrderedSet.filter] using h

/-- Right after clusters are built, a cluster of `n` elements has `2 n - 3` constraints that
are not redundant, and with the free and the conflicting ones these are all. -/
theorem Reachable.tally_of_builds? {s b : Sketch} {c : Call} (hs : Reachable s)
    (hb : c.builds? s = some b) :
    (∀ k ∈ b.clusters, 2 ≤ k.elements.size ∧
      (k.constraints.filter (· ∉ b.conflicting)).size = 2 * k.elements.size - 3) ∧
    b.constraints.constraints.length = b.free.size + b.conflicting.size +
      (b.clusters.map fun k => 2 * k.elements.size - 3).sum := by
  obtain ⟨⟨t, ht, hbuilt, _, rfl⟩, _⟩ := builds?_eq_some hs.sound hb
  have htally := tallied_build ht hbuilt
  have hp := (assembled_build ht hbuilt).partitioned
  have hcount : ∀ k ∈ t.build.clusters, (t.build.essential k).size = 2 * k.elements.size - 3 := by
    intro k hk
    have := htally k hk
    omega
  refine ⟨fun k hk => ⟨?_, hcount k hk⟩, ?_⟩
  · have := htally k hk
    omega
  · have hsum : (t.build.clusters.map (·.constraints.size)).sum = t.build.conflicting.size +
        (t.build.clusters.map fun k => 2 * k.elements.size - 3).sum := by
      rw [hp.size_conflicting, ← List.sum_map_add]
      refine congrArg List.sum (List.map_congr_left fun k hk => ?_)
      rw [size_constraints_eq t.build k, hcount k hk]
    rw [hp.length_constraints (ht.congr (sameProblem_build t)), hsum, Nat.add_assoc]

/-- The last distance is redundant: six constraints for four elements. -/
theorem tally_of_builds?_braced :
    (Call.runAll solveLinear Call.braced {}).build.conflicting.size = 1 ∧
    (∀ k ∈ (Call.runAll solveLinear Call.braced {}).build.clusters, 2 ≤ k.elements.size ∧
      (k.constraints.filter (· ∉ (Call.runAll solveLinear Call.braced {}).build.conflicting)).size =
        2 * k.elements.size - 3) := by
  have hs := (Reachable.new {}).runAll solveLinear Call.braced
  have hb : (Call.runAll solveLinear Call.braced {}).built = false := by decide +kernel
  have htally := Reachable.tally_of_builds? hs (Call.builds?_build hb)
  exact ⟨by decide +kernel, htally.1⟩

end Sketch

end RigidSketch
