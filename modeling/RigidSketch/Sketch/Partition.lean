import RigidSketch.Sketch.Growth

/-! The partition of a sketch into rigid clusters. Each cluster grows from a seed among the
free constraints; a seed from which nothing grows is put aside and tried again at the end. -/

namespace RigidSketch

def firstMax {α : Type} (f : α → Nat) : List α → Option α
  | [] => none
  | a :: rest =>
    match firstMax f rest with
    | some b => if f a < f b then some b else some a
    | none => some a

theorem mem_of_firstMax {α : Type} {f : α → Nat} {xs : List α} {a : α}
    (h : firstMax f xs = some a) : a ∈ xs := by
  induction xs generalizing a with
  | nil => simp [firstMax] at h
  | cons x rest ih =>
    unfold firstMax at h
    split at h
    · rename_i b hb
      split at h
      · obtain rfl := Option.some.inj h
        exact List.mem_cons_of_mem _ (ih hb)
      · obtain rfl := Option.some.inj h
        exact List.mem_cons_self
    · obtain rfl := Option.some.inj h
      exact List.mem_cons_self

namespace Sketch

/-- Forgets the clusters and what the last solve found. Coordinates stay. -/
def reset (s : Sketch) : Sketch :=
  { s with
    elements := s.elements.map (·.release)
    constraints := s.constraints.map ({ · with solved := false })
    clusters := []
    free := .ofList s.constraints.ids
    conflicting := ∅
    built := false
    status := .pending }

def freeDegree (s : Sketch) (e : ElementId) : Nat :=
  (s.constraints.on e).countP (· ∈ s.free)

def untried (s : Sketch) (cancelled : List ConstraintId) : List ConstraintId :=
  s.free.toList.filter (· ∉ cancelled)

def endsClaimed (s : Sketch) (c : Constraint) : Bool × Bool :=
  (s.elements.isClaimed c.first, s.elements.isClaimed c.second)

/-- The first choice of a seed among some constraints: one between fixed elements, then one
between elements of clusters, then the one that leaves a cluster where most free
constraints meet, then any. -/
def preferred? (s : Sketch) (cs : List Constraint) : Option Constraint :=
  let degree (c : Constraint) : Nat :=
    s.freeDegree (if s.elements.isClaimed c.first then c.first else c.second)
  (cs.find? fun c => c.ends.all s.elements.isFixed).or <|
    (cs.find? fun c => s.endsClaimed c = (true, true)).or <|
      (firstMax degree (cs.filter fun c => (s.endsClaimed c).1 != (s.endsClaimed c).2)).or cs.head?

/-- The next seed, and whether it had been put aside. Seeds put aside serve only elements
that no cluster holds. -/
def seed? (s : Sketch) (cancelled : List ConstraintId) : Option (ConstraintId × Bool) :=
  match s.preferred? ((s.untried cancelled).filterMap s.constraints.get?) with
  | some c => some (c.id, false)
  | none =>
    ((s.free.toList.filter (· ∈ cancelled)).find? fun id =>
      match s.constraints.get? id with
      | some c => c.ends.any fun e => !s.elements.isClaimed e
      | none => false).map (·, true)

theorem mem_of_preferred? {s : Sketch} {cs : List Constraint} {c : Constraint}
    (h : s.preferred? cs = some c) : c ∈ cs := by
  simp only [preferred?, Option.or_eq_some_iff] at h
  rcases h with h | ⟨_, h | ⟨_, h | ⟨_, h⟩⟩⟩
  · exact List.mem_of_find?_eq_some h
  · exact List.mem_of_find?_eq_some h
  · exact (List.mem_filter.mp (mem_of_firstMax h)).1
  · exact List.mem_of_mem_head? h

theorem id_eq_of_get? {t : ConstraintTable} {id : ConstraintId} {c : Constraint}
    (h : t.get? id = some c) : c.id = id := by
  simpa using List.find?_some h

theorem mem_free_of_seed? {s : Sketch} {cancelled : List ConstraintId} {c : ConstraintId}
    {retry : Bool} (h : s.seed? cancelled = some (c, retry)) :
    c ∈ s.free ∧ (retry = false → c ∉ cancelled) := by
  unfold seed? at h
  split at h
  · rename_i d hd
    obtain ⟨id, hid, hget⟩ := List.mem_filterMap.mp (mem_of_preferred? hd)
    have hf := List.mem_filter.mp hid
    have he := id_eq_of_get? hget
    simp only [Option.some.injEq, Prod.mk.injEq] at h
    rw [← h.1, he]
    exact ⟨hf.1, fun _ => by simpa using hf.2⟩
  · obtain ⟨id, hid, he⟩ := Option.map_eq_some_iff.mp h
    simp only [Prod.mk.injEq] at he
    have hf := List.mem_filter.mp (List.mem_of_find?_eq_some hid)
    rw [← he.1, ← he.2]
    exact ⟨hf.1, by simp⟩

/-- An identity for the next cluster: one left over, or a new one. -/
def reserve (s : Sketch) : Option ClusterId → Sketch × ClusterId
  | some k => (s, k)
  | none => ({ s with nextCluster := s.nextCluster + 1 }, ⟨s.nextCluster⟩)

@[simp] theorem free_reserve (s : Sketch) (spare : Option ClusterId) :
    (s.reserve spare).1.free = s.free := by
  cases spare <;> rfl

/-- Adds a grown cluster. Free constraints with both ends inside become its constraints,
redundant beside its own. -/
def commit (s : Sketch) (g : Growth) : Sketch :=
  let k := g.cluster
  let s := { s with free := s.free.eraseAll k.constraints.toList }
  let inside := s.inside k
  let claimed := s.elements.mapWhere (· ∈ k.elements) (·.claim k.id)
  let raised := claimed.mapWhere (· ∈ k.elements) fun e =>
    if e.level = .under then { e with level := .full } else e
  { s with
    elements := raised.mapWhere (· ∈ g.crowded) ({ · with level := .over })
    clusters := s.clusters ++ [{ k with constraints := k.constraints.insertAll inside }]
    free := s.free.eraseAll inside
    conflicting := (s.conflicting.insertAll inside).insertAll g.excess }

theorem mem_free_commit {s : Sketch} {g : Growth} {c : ConstraintId}
    (h : c ∈ (s.commit g).free) : c ∈ s.free ∧ c ∉ g.cluster.constraints := by
  have h' := (OrderedSet.mem_eraseAll.mp h).1
  exact OrderedSet.mem_eraseAll.mp h'

theorem free_commit_sublist (s : Sketch) (g : Growth) :
    (s.commit g).free.toList.Sublist s.free.toList :=
  (List.filter_sublist).trans List.filter_sublist

theorem length_free_commit_lt {s : Sketch} {g : Growth} {c : ConstraintId} (h : c ∈ s.free)
    (hc : c ∈ g.cluster.constraints) :
    (s.commit g).free.toList.length < s.free.toList.length := by
  rcases Nat.lt_or_eq_of_le (free_commit_sublist s g).length_le with hl | hl
  · exact hl
  · have he := (free_commit_sublist s g).eq_of_length hl
    have hm : c ∈ (s.commit g).free := by rw [OrderedSet.mem_def, he]; exact h
    exact absurd hc (mem_free_commit hm).2

theorem length_untried_commit_le (s : Sketch) (g : Growth) (cancelled : List ConstraintId) :
    ((s.commit g).untried cancelled).length ≤ (s.untried cancelled).length :=
  ((free_commit_sublist s g).filter _).length_le

theorem length_untried_cons_lt {s : Sketch} {cancelled : List ConstraintId} {c : ConstraintId}
    (h : c ∈ s.free) (hc : c ∉ cancelled) :
    (s.untried (c :: cancelled)).length < (s.untried cancelled).length := by
  have he : s.untried (c :: cancelled) = (s.untried cancelled).filter (· ≠ c) := by
    simp [untried, List.filter_filter]
  rw [he, List.length_filter_lt_length_iff_exists]
  exact ⟨c, List.mem_filter.mpr ⟨h, by simpa using hc⟩, by simp⟩

/-- Commits clusters until every element is in one or no seed is left. A seed that takes in
no element is put aside, and its identity is left over for the next. -/
def commitAll (s : Sketch) (cancelled : List ConstraintId) (spare : Option ClusterId) : Sketch :=
  if s.elements.elements.all (·.isClaimed) then s
  else
    match _h : s.seed? cancelled with
    | none => s
    | some (seed, retry) =>
      let r := s.reserve spare
      let g := r.1.growFrom r.2 seed
      if _hg : g.cluster.steps.length = 1 ∧ retry = false then
        commitAll r.1 (seed :: cancelled) (some r.2)
      else commitAll (r.1.commit g) cancelled none
termination_by s.free.toList.length + (s.untried cancelled).length
decreasing_by
  · have hs := mem_free_of_seed? _h
    have hl := length_untried_cons_lt hs.1 (hs.2 _hg.2)
    simp only [untried, free_reserve] at hl ⊢
    omega
  · have hs := mem_free_of_seed? _h
    have hf : seed ∈ (s.reserve spare).1.free := by simpa using hs.1
    have hl := length_free_commit_lt hf
      (seed_mem_growFrom (s.reserve spare).1 (s.reserve spare).2 seed)
    have hu := length_untried_commit_le (s.reserve spare).1
      ((s.reserve spare).1.growFrom (s.reserve spare).2 seed) cancelled
    simp only [untried, free_reserve] at hl hu ⊢
    omega

/-- Partitions the sketch into clusters, unless that was done since the last reset. -/
def build (s : Sketch) : Sketch :=
  if s.built then s else { s.reset.commitAll [] none with built := true }

end Sketch

end RigidSketch
