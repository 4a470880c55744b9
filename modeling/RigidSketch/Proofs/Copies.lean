import RigidSketch.Proofs.Tables

/-! The copies that clusters have of one element. Once several clusters hold it each of them
has a copy, and an element that may move has none while a single cluster holds it. -/

namespace RigidSketch

namespace Element

/-- Copies belong to owners, and owners that share the element have a copy each. -/
structure Copied (e : Element) : Prop where
  nodup : e.owners.Nodup
  owned : ∀ k, (e.copy? k).isSome → k ∈ e.owners
  shared : 2 ≤ e.owners.length → ∀ k ∈ e.owners, (e.copy? k).isSome

/-- Besides, the sole owner of an element that may move works on the element itself. -/
structure WellCopied (e : Element) : Prop extends Copied e where
  sole : e.fixed = false → e.owners.length = 1 → ∀ k, e.copy? k = none

def Sheltered (e : Element) : Prop :=
  e.fixed = true → ∀ k ∈ e.owners, (e.copy? k).isSome

theorem owners_eq_of_sole {e : Element} {k : ClusterId} (hk : k ∈ e.owners)
    (hlen : ¬ 2 ≤ e.owners.length) : e.owners = [k] := by
  have hpos := List.length_pos_of_mem hk
  obtain ⟨o, ho⟩ := List.length_eq_one_iff.mp (show e.owners.length = 1 by omega)
  rw [ho, List.mem_singleton] at hk
  rw [ho, hk]

@[simp] theorem copy?_putCopy (e : Element) (k k' : ClusterId) (c : Copy) :
    (e.putCopy k c).copy? k' = if k' = k then some c else e.copy? k' :=
  lookup_put k k' c e.copies

@[simp] theorem copy?_dropCopy (e : Element) (k k' : ClusterId) :
    (e.dropCopy k).copy? k' = if k' = k then none else e.copy? k' :=
  lookup_filter_ne k k' e.copies

@[simp] theorem copy?_withOwners (e : Element) (owners : List ClusterId) (k : ClusterId) :
    copy? { e with owners } k = e.copy? k := rfl

theorem claim_eq_self {e : Element} {k : ClusterId} (h : k ∈ e.owners) : claim k e = e := by
  simp [claim, h]

theorem owners_claim {e : Element} {k : ClusterId} (h : k ∉ e.owners) :
    (claim k e).owners = e.owners ++ [k] := by
  simp [claim, h]

theorem mem_owners_claim {e : Element} {k k' : ClusterId} :
    k' ∈ (claim k e).owners ↔ k' ∈ e.owners ∨ k' = k := by
  by_cases h : k ∈ e.owners
  · rw [claim_eq_self h]
    exact ⟨Or.inl, fun hk => hk.elim (fun ho => ho) fun he => he ▸ h⟩
  · rw [owners_claim h, List.mem_append, List.mem_singleton]

theorem claim_frame (k : ClusterId) (e : Element) :
    (claim k e).id = e.id ∧ (claim k e).shape = e.shape ∧ (claim k e).fixed = e.fixed ∧
      (claim k e).level = e.level := by
  unfold claim
  split
  · exact ⟨rfl, rfl, rfl, rfl⟩
  · dsimp only
    split <;> first | (split <;> exact ⟨rfl, rfl, rfl, rfl⟩) | exact ⟨rfl, rfl, rfl, rfl⟩

theorem copy?_claim_isSome_of_fixed {e : Element} {k : ClusterId} (h : k ∉ e.owners)
    (hf : e.fixed = true) (k' : ClusterId) :
    ((claim k e).copy? k').isSome ↔ k' = k ∨ (e.copy? k').isSome := by
  have hc : (claim k e).copy? k' = (e.putCopy k ⟨e.shape, e.level⟩).copy? k' := by
    unfold claim
    rw [if_neg h]
    split <;> simp [hf]
  rw [hc, copy?_putCopy]
  by_cases hk : k' = k <;> simp [hk]

theorem copy?_claim_first {e : Element} {k k' : ClusterId} (h : e.owners = [])
    (hf : e.fixed = false) : (claim k e).copy? k' = e.copy? k' := by
  have hc : claim k e = { e with owners := e.owners ++ [k] } := by simp [claim, h, hf]
  rw [hc, copy?_withOwners]

theorem copy?_claim_isSome_of_shared {e : Element} {k : ClusterId} (h : k ∉ e.owners)
    (hs : e.owners ≠ []) (hf : e.fixed = false) (k' : ClusterId) :
    ((claim k e).copy? k').isSome ↔
      k' = k ∨ e.owners = [k'] ∨ (e.copy? k').isSome := by
  unfold claim
  rw [if_neg h]
  split
  · rename_i ho
    exact absurd ho hs
  · rename_i first ho
    simp only [hf, Bool.false_eq_true, if_false, copy?_withOwners, copy?_putCopy, ho]
    by_cases hk : k' = k
    · simp [hk]
    · by_cases hfst : k' = first
      · simp [hfst]
      · have : first ≠ k' := fun he => hfst he.symm
        simp [hk, hfst, this]
  · rename_i hone
    have : ∀ x, e.owners ≠ [x] := fun x hx => hone x hx
    simp only [copy?_withOwners, copy?_putCopy]
    by_cases hk : k' = k <;> simp [hk, this]

theorem Sheltered.claim {e : Element} (h : e.Sheltered) (k : ClusterId) :
    (Element.claim k e).Sheltered := by
  by_cases hk : k ∈ e.owners
  · rwa [claim_eq_self hk]
  · intro hf k' hk'
    rw [(claim_frame k e).2.2.1] at hf
    rw [copy?_claim_isSome_of_fixed hk hf]
    rcases mem_owners_claim.mp hk' with ho | rfl
    · exact Or.inr (h hf k' ho)
    · exact Or.inl rfl

theorem WellCopied.claim {e : Element} (h : e.WellCopied) (hs : e.Sheltered) (k : ClusterId) :
    (Element.claim k e).WellCopied := by
  by_cases hk : k ∈ e.owners
  · rwa [claim_eq_self hk]
  have hn : (e.owners ++ [k]).Nodup := by
    refine List.nodup_append.mpr ⟨h.nodup, by simp, ?_⟩
    rintro a ha b hb rfl
    exact hk (List.mem_singleton.mp hb ▸ ha)
  cases hf : e.fixed with
  | true =>
    have hcopy := copy?_claim_isSome_of_fixed hk hf
    refine ⟨⟨by rwa [owners_claim hk], ?_, ?_⟩, ?_⟩
    · intro k' hk'
      rcases (hcopy k').mp hk' with rfl | hc
      · exact mem_owners_claim.mpr (Or.inr rfl)
      · exact mem_owners_claim.mpr (Or.inl (h.owned k' hc))
    · intro _ k' hk'
      rcases mem_owners_claim.mp hk' with ho | rfl
      · exact (hcopy k').mpr (Or.inr (hs hf k' ho))
      · exact (hcopy k').mpr (Or.inl rfl)
    · intro hff
      rw [(claim_frame k e).2.2.1, hf] at hff
      cases hff
  | false =>
    by_cases ho : e.owners = []
    · -- the first cluster works on the element itself
      have hnone : ∀ k', e.copy? k' = none := by
        intro k'
        have hk' : k' ∉ e.owners := by simp [ho]
        exact Option.not_isSome_iff_eq_none.mp fun hc => hk' (h.owned k' hc)
      have hlen : (Element.claim k e).owners.length = 1 := by simp [owners_claim hk, ho]
      refine ⟨⟨by rwa [owners_claim hk], ?_, ?_⟩, ?_⟩
      · intro k' hk'
        simp [copy?_claim_first ho hf, hnone] at hk'
      · omega
      · intro _ _ k'
        rw [copy?_claim_first ho hf, hnone]
    · have hcopy := copy?_claim_isSome_of_shared hk ho hf
      refine ⟨⟨by rwa [owners_claim hk], ?_, ?_⟩, ?_⟩
      · intro k' hk'
        rcases (hcopy k').mp hk' with rfl | hone | hc
        · exact mem_owners_claim.mpr (Or.inr rfl)
        · exact mem_owners_claim.mpr (Or.inl (by simp [hone]))
        · exact mem_owners_claim.mpr (Or.inl (h.owned k' hc))
      · intro _ k' hk'
        rcases mem_owners_claim.mp hk' with hm | rfl
        · -- a sole owner gets its copy with this claim, several had theirs
          by_cases hlen : 2 ≤ e.owners.length
          · exact (hcopy k').mpr (Or.inr (Or.inr (h.shared hlen k' hm)))
          · exact (hcopy k').mpr (Or.inr (Or.inl (owners_eq_of_sole hm hlen)))
        · exact (hcopy k').mpr (Or.inl rfl)
      · intro _ hlen
        have := List.length_pos_iff.mpr ho
        rw [owners_claim hk, List.length_append, List.length_singleton] at hlen
        omega

theorem settle_frame (e : Element) :
    e.settle.id = e.id ∧ e.settle.fixed = e.fixed ∧ e.settle.owners = e.owners := by
  unfold settle
  split
  · split
    · dsimp only
      split <;> exact ⟨rfl, rfl, rfl⟩
    · exact ⟨rfl, rfl, rfl⟩
  · exact ⟨rfl, rfl, rfl⟩

theorem shape_settle_of_fixed {e : Element} (hf : e.fixed = true) : e.settle.shape = e.shape := by
  unfold settle
  split
  · split
    · dsimp only [dropCopy]
      rw [if_pos hf]
    · rfl
  · rfl

theorem copy?_settle {e : Element} (h : e.Copied) (k : ClusterId) :
    e.settle.copy? k = if e.owners.length = 1 then none else e.copy? k := by
  unfold settle
  split
  · rename_i o ho
    -- no cluster but the sole owner has a copy
    have hnone : ∀ k', k' ≠ o → e.copy? k' = none := by
      intro k' hne
      have hk' : k' ∉ e.owners := by simpa [ho] using hne
      exact Option.not_isSome_iff_eq_none.mp fun hc => hk' (h.owned k' hc)
    have hlen : e.owners.length = 1 := by simp [ho]
    rw [if_pos hlen]
    have hdrop : (e.dropCopy o).copy? k = none := by
      rw [copy?_dropCopy]
      by_cases hk : k = o
      · simp [hk]
      · simp [hk, hnone k hk]
    split
    · dsimp only
      split <;> exact hdrop
    · rename_i hc
      by_cases hk : k = o
      · rw [hk, hc]
      · exact hnone k hk
  · rename_i hone
    have hlen : e.owners.length ≠ 1 := by
      intro hl
      obtain ⟨o, ho⟩ := List.length_eq_one_iff.mp hl
      exact hone o ho
    rw [if_neg hlen]

theorem Copied.settle {e : Element} (h : e.Copied) : e.settle.WellCopied := by
  have ho : e.settle.owners = e.owners := (settle_frame e).2.2
  refine ⟨⟨by rw [ho]; exact h.nodup, ?_, ?_⟩, ?_⟩
  · intro k hk
    rw [copy?_settle h] at hk
    rw [ho]
    split at hk
    · simp at hk
    · exact h.owned k hk
  · intro hlen k hk
    rw [ho] at hlen hk
    rw [copy?_settle h, if_neg (by omega)]
    exact h.shared hlen k hk
  · intro _ hlen k
    rw [ho] at hlen
    rw [copy?_settle h, if_pos hlen]

/-- The element with its claim handed over, before it is settled. -/
def handOver (old new : ClusterId) (e : Element) : Element :=
  let others := e.owners.filter (· ≠ old)
  if new ∈ others then { e.dropCopy old with owners := others }
  else
    match e.copy? old with
    | some c => { (e.dropCopy old).putCopy new c with owners := others ++ [new] }
    | none => { e.dropCopy old with owners := others ++ [new] }

theorem reassign_eq {e : Element} {old new : ClusterId} (h : old ∈ e.owners) :
    reassign old new e = (handOver old new e).settle := by
  have ho : e.owners.isEmpty = false := by
    cases he : e.owners with
    | nil => simp [he] at h
    | cons => rfl
  unfold reassign handOver
  rw [ho]
  simp only [Bool.false_eq_true, if_false]
  split
  · rfl
  · cases e.copy? old <;> rfl

theorem handOver_frame (old new : ClusterId) (e : Element) :
    (handOver old new e).id = e.id ∧ (handOver old new e).fixed = e.fixed ∧
      (handOver old new e).shape = e.shape := by
  unfold handOver
  dsimp only
  split
  · exact ⟨rfl, rfl, rfl⟩
  · split <;> exact ⟨rfl, rfl, rfl⟩

theorem owners_handOver (old new : ClusterId) (e : Element) :
    (handOver old new e).owners =
      if new ∈ e.owners.filter (· ≠ old) then e.owners.filter (· ≠ old)
      else e.owners.filter (· ≠ old) ++ [new] := by
  unfold handOver
  dsimp only
  split
  · rfl
  · split <;> rfl

theorem mem_owners_handOver {old new k : ClusterId} {e : Element} :
    k ∈ (handOver old new e).owners ↔ k = new ∨ (k ∈ e.owners ∧ k ≠ old) := by
  rw [owners_handOver]
  split
  · rename_i hm
    constructor
    · intro hk
      exact Or.inr (by simpa using hk)
    · rintro (rfl | hk)
      · exact hm
      · simpa using hk
  · rw [List.mem_append, List.mem_singleton, or_comm]
    simp

theorem copy?_handOver_isSome {old new k : ClusterId} {e : Element} (hne : old ≠ new) :
    ((handOver old new e).copy? k).isSome ↔
      (k ≠ old ∧ (e.copy? k).isSome) ∨
        (k = new ∧ new ∉ e.owners ∧ (e.copy? old).isSome) := by
  have hm : new ∈ e.owners.filter (· ≠ old) ↔ new ∈ e.owners := by
    simpa using fun _ he => hne he.symm
  unfold handOver
  dsimp only
  by_cases hn : new ∈ e.owners
  · rw [if_pos (hm.mpr hn), copy?_withOwners, copy?_dropCopy]
    by_cases hk : k = old <;> simp [hk, hn]
  · rw [if_neg (mt hm.mp hn)]
    split
    · rename_i c hc
      rw [copy?_withOwners, copy?_putCopy, copy?_dropCopy]
      by_cases hk : k = new
      · simp [hk, hn, hc]
      · by_cases ho : k = old <;> simp [hk, ho, hne]
    · rename_i hc
      rw [copy?_withOwners, copy?_dropCopy]
      by_cases ho : k = old <;> simp [ho, hc]

theorem Copied.length_others {e : Element} (h : e.Copied) {old : ClusterId}
    (ho : old ∈ e.owners) : e.owners.length = (e.owners.filter (· ≠ old)).length + 1 := by
  have hs := h.nodup.erase_eq_filter old
  have he := List.length_erase_of_mem ho
  have hpos := List.length_pos_of_mem ho
  have hf : (e.owners.filter (· ≠ old)) = e.owners.erase old := by
    rw [hs]
    congr 1
    funext k
    rw [Bool.eq_iff_iff]
    simp
  rw [hf, he]
  omega

theorem Copied.handOver {e : Element} (h : e.Copied) {old new : ClusterId} (hne : old ≠ new)
    (ho : old ∈ e.owners) : (Element.handOver old new e).Copied := by
  have hlen := h.length_others ho
  refine ⟨?_, ?_, ?_⟩
  · rw [owners_handOver]
    have hn : (e.owners.filter (· ≠ old)).Nodup := h.nodup.sublist List.filter_sublist
    split
    · exact hn
    · rename_i hm
      refine List.nodup_append.mpr ⟨hn, by simp, ?_⟩
      rintro a ha b hb rfl
      exact hm (List.mem_singleton.mp hb ▸ ha)
  · intro k hk
    rw [mem_owners_handOver]
    rcases (copy?_handOver_isSome hne).mp hk with ⟨hko, hc⟩ | ⟨hkn, _⟩
    · exact Or.inr ⟨h.owned k hc, hko⟩
    · exact Or.inl hkn
  · intro hl k hk
    -- two owners are left, so the element was shared before and every owner had a copy
    have hold : 2 ≤ e.owners.length := by
      rw [owners_handOver] at hl
      split at hl
      · omega
      · rw [List.length_append, List.length_singleton] at hl
        omega
    rw [copy?_handOver_isSome hne]
    rcases mem_owners_handOver.mp hk with rfl | ⟨hko, hkne⟩
    · by_cases hn : k ∈ e.owners
      · exact Or.inl ⟨hne.symm, h.shared hold k hn⟩
      · exact Or.inr ⟨rfl, hn, h.shared hold old ho⟩
    · exact Or.inl ⟨hkne, h.shared hold k hko⟩

theorem Copied.reassign {e : Element} (h : e.Copied) {old new : ClusterId} (hne : old ≠ new)
    (ho : old ∈ e.owners) : (Element.reassign old new e).WellCopied := by
  rw [reassign_eq ho]
  exact (h.handOver hne ho).settle

theorem mem_owners_reassign {old new k : ClusterId} {e : Element} (ho : old ∈ e.owners) :
    k ∈ (reassign old new e).owners ↔ k = new ∨ (k ∈ e.owners ∧ k ≠ old) := by
  rw [reassign_eq ho, (settle_frame _).2.2, mem_owners_handOver]

theorem reassign_frame {old new : ClusterId} {e : Element} (ho : old ∈ e.owners) :
    (reassign old new e).id = e.id ∧ (reassign old new e).fixed = e.fixed := by
  rw [reassign_eq ho, (settle_frame _).1, (settle_frame _).2.1]
  exact ⟨(handOver_frame old new e).1, (handOver_frame old new e).2.1⟩

theorem shape_reassign_of_fixed {old new : ClusterId} {e : Element} (ho : old ∈ e.owners)
    (hf : e.fixed = true) : (reassign old new e).shape = e.shape := by
  have hframe := handOver_frame old new e
  rw [reassign_eq ho, shape_settle_of_fixed (by rw [hframe.2.1, hf]), hframe.2.2]

/-- The same element with the same copies, though these may have other shapes. -/
structure Reshaped (e e' : Element) : Prop where
  id : e'.id = e.id
  fixed : e'.fixed = e.fixed
  owners : e'.owners = e.owners
  copies : ∀ k, (e'.copy? k).isSome = (e.copy? k).isSome

theorem Reshaped.refl (e : Element) : Reshaped e e := ⟨rfl, rfl, rfl, fun _ => rfl⟩

theorem Reshaped.wellCopied {e e' : Element} (h : Reshaped e e') (hw : e.WellCopied) :
    e'.WellCopied := by
  refine ⟨⟨?_, ?_, ?_⟩, ?_⟩
  · rw [h.owners]
    exact hw.nodup
  · intro k
    rw [h.copies, h.owners]
    exact hw.owned k
  · intro hl k
    rw [h.owners] at hl ⊢
    rw [h.copies]
    exact hw.shared hl k
  · intro hf hl k
    rw [h.fixed] at hf
    rw [h.owners] at hl
    have hk := h.copies k
    rw [hw.sole hf hl k] at hk
    exact Option.not_isSome_iff_eq_none.mp (by simp [hk])

theorem Reshaped.sheltered {e e' : Element} (h : Reshaped e e') (hs : e.Sheltered) :
    e'.Sheltered := by
  intro hf k
  rw [h.fixed] at hf
  rw [h.owners, h.copies]
  exact hs hf k

theorem reshaped_setShapeIn (e : Element) (k : ClusterId) (g : Shape Float) :
    Reshaped e (e.setShapeIn k g) := by
  unfold setShapeIn
  split
  · rename_i c hc
    refine ⟨rfl, rfl, rfl, fun k' => ?_⟩
    rw [copy?_putCopy]
    by_cases hk : k' = k <;> simp [hk, hc]
  · exact ⟨rfl, rfl, rfl, fun _ => rfl⟩

theorem reshaped_moveIn (e : Element) (k : ClusterId) (m : Motion Float) :
    Reshaped e (e.moveIn k m) :=
  reshaped_setShapeIn e k _

theorem shape_setShapeIn (e : Element) (k : ClusterId) (g : Shape Float) :
    (e.setShapeIn k g).shape = if (e.copy? k).isSome then e.shape else g := by
  unfold setShapeIn
  split
  · rename_i c hc
    simp [hc, putCopy]
  · rename_i hc
    simp [hc]

theorem shape_moveIn (e : Element) (k : ClusterId) (m : Motion Float) :
    (e.moveIn k m).shape = if (e.copy? k).isSome then e.shape else m.move e.shape := by
  rw [moveIn, shape_setShapeIn]
  cases hc : e.copy? k with
  | some c => rfl
  | none => simp [shapeIn, hc]

theorem shapeIn_setShapeIn_of_ne {e : Element} {k k' : ClusterId} (hne : k' ≠ k)
    (hk : (e.copy? k).isSome) (g : Shape Float) :
    (e.setShapeIn k g).shapeIn k' = e.shapeIn k' := by
  obtain ⟨c, hc⟩ := Option.isSome_iff_exists.mp hk
  have hs : e.setShapeIn k g = e.putCopy k { c with shape := g } := by simp [setShapeIn, hc]
  rw [hs]
  unfold shapeIn
  rw [copy?_putCopy, if_neg hne]
  rfl

end Element

end RigidSketch
