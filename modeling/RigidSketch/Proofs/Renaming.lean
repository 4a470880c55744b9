import Mathlib.Logic.Function.Basic
import RigidSketch.Proofs.Tables
import RigidSketch.Sketch.Relaxation

/-! Clusters under other names. What is done with an element in the name of a cluster is done
in the same way under the new name, as long as different clusters keep different names. -/

namespace RigidSketch

open Function (Injective)

section Keys

variable {α β : Type} [DecidableEq α] {f : α → α} (hf : Injective f)
include hf

theorem lookup_map_key (l : List (α × β)) (a : α) :
    (l.map fun p => (f p.1, p.2)).lookup (f a) = l.lookup a := by
  induction l with
  | nil => rfl
  | cons p l ih =>
    have hb : (f a == f p.1) = (a == p.1) := by simp [beq_eq_decide, hf.eq_iff]
    rw [List.map_cons, List.lookup_cons, List.lookup_cons, ih, hb]

theorem filter_map_key {γ : Type} (key : γ → α) (g : γ → γ) (hg : ∀ c, key (g c) = f (key c))
    (l : List γ) (a : α) : (l.map g).filter (key · ≠ f a) = (l.filter (key · ≠ a)).map g := by
  rw [List.filter_map]
  congr 1
  refine List.filter_congr fun c _ => ?_
  simp [hg, hf.eq_iff]

end Keys

/-- The name of a cluster, had so many names been given out before. -/
def ClusterId.shift (d : Nat) (k : ClusterId) : ClusterId := ⟨d + k.number⟩

theorem ClusterId.shift_injective {d : Nat} : Injective (shift d) := by
  rintro ⟨m⟩ ⟨n⟩ h
  have hn : d + m = d + n := congrArg number h
  rw [Nat.add_left_cancel hn]

def Cluster.rename (ρ : ClusterId → ClusterId) (k : Cluster) : Cluster := { k with id := ρ k.id }

namespace Element

def rename (ρ : ClusterId → ClusterId) (e : Element) : Element :=
  { e with
    owners := e.owners.map ρ
    copies := e.copies.map fun p => (ρ p.1, p.2) }

theorem rename_rename (σ ρ : ClusterId → ClusterId) (e : Element) :
    (e.rename ρ).rename σ = e.rename (σ ∘ ρ) := by
  simp [rename]

variable {ρ : ClusterId → ClusterId}

@[simp] theorem id_rename (e : Element) : (e.rename ρ).id = e.id := rfl

@[simp] theorem shape_rename (e : Element) : (e.rename ρ).shape = e.shape := rfl

@[simp] theorem fixed_rename (e : Element) : (e.rename ρ).fixed = e.fixed := rfl

@[simp] theorem isClaimed_rename (e : Element) : (e.rename ρ).isClaimed = e.isClaimed := by
  simp [rename, isClaimed]

theorem placeLoose_rename (target : ElementId → Option (Shape Float)) (e : Element) :
    Sketch.placeLoose target (e.rename ρ) = (Sketch.placeLoose target e).rename ρ := by
  simp only [Sketch.placeLoose, isClaimed_rename, fixed_rename, id_rename]
  split
  · rfl
  · split <;> rfl

theorem setOwners_rename (e : Element) (owners : List ClusterId) (k : ClusterId) :
    { e with owners := owners ++ [k] }.rename ρ =
      { e.rename ρ with owners := owners.map ρ ++ [ρ k] } := by
  simp [rename]

theorem settle_of_owners {e : Element} {k : ClusterId} (h : e.owners = [k]) :
    e.settle =
      match e.copy? k with
      | some c =>
        if e.fixed then e.dropCopy k
        else { e.dropCopy k with shape := c.shape, level := c.level }
      | none => e := by
  rw [settle, h]
  rfl

variable (hρ : Injective ρ)
include hρ

theorem copy?_rename (e : Element) (k : ClusterId) : (e.rename ρ).copy? (ρ k) = e.copy? k :=
  lookup_map_key hρ e.copies k

theorem mem_owners_rename (e : Element) (k : ClusterId) :
    ρ k ∈ (e.rename ρ).owners ↔ k ∈ e.owners :=
  List.mem_map_of_injective hρ

theorem dropCopy_rename (e : Element) (k : ClusterId) :
    (e.rename ρ).dropCopy (ρ k) = (e.dropCopy k).rename ρ := by
  have h := filter_map_key hρ Prod.fst (fun p : ClusterId × Copy => (ρ p.1, p.2)) (fun _ => rfl)
    e.copies k
  exact congrArg (fun l => { e.rename ρ with copies := l }) h

theorem putCopy_rename (e : Element) (k : ClusterId) (c : Copy) :
    (e.rename ρ).putCopy (ρ k) c = (e.putCopy k c).rename ρ := by
  have h := congrArg Element.copies (dropCopy_rename hρ e k)
  simp only [dropCopy, rename] at h
  simp only [putCopy, rename, h, List.map_append, List.map_cons, List.map_nil]

theorem shapeIn_rename (e : Element) (k : ClusterId) :
    (e.rename ρ).shapeIn (ρ k) = e.shapeIn k := by
  simp only [shapeIn, copy?_rename hρ]
  rfl

theorem setShapeIn_rename (e : Element) (k : ClusterId) (g : Shape Float) :
    (e.rename ρ).setShapeIn (ρ k) g = (e.setShapeIn k g).rename ρ := by
  simp only [setShapeIn, copy?_rename hρ]
  split
  · exact putCopy_rename hρ e k _
  · rfl

theorem moveIn_rename (e : Element) (k : ClusterId) (m : Motion Float) :
    (e.rename ρ).moveIn (ρ k) m = (e.moveIn k m).rename ρ := by
  rw [moveIn, shapeIn_rename hρ, setShapeIn_rename hρ]
  rfl

theorem claim_rename (e : Element) (k : ClusterId) :
    (e.rename ρ).claim (ρ k) = (e.claim k).rename ρ := by
  by_cases hk : k ∈ e.owners
  · rw [claim, claim, if_pos hk, if_pos ((mem_owners_rename hρ e k).mpr hk)]
  · rw [claim, claim, if_neg hk, if_neg (mt (mem_owners_rename hρ e k).mp hk)]
    refine Eq.trans (congrArg
      (fun c : Element => { c with owners := (e.rename ρ).owners ++ [ρ k] }) ?_)
      (setOwners_rename _ e.owners k).symm
    have hput := putCopy_rename hρ e
    obtain ⟨id, shape, fixed, level, owners, copies⟩ := e
    match owners, fixed with
    | [], false => rfl
    | [], true => exact hput k _
    | [first], true => exact hput k _
    | [first], false =>
      exact (congrArg (putCopy · (ρ k) ⟨shape, level⟩) (hput first _)).trans
        (putCopy_rename hρ _ k _)
    | _ :: _ :: _, _ => exact hput k _

theorem settle_rename (e : Element) : (e.rename ρ).settle = e.settle.rename ρ := by
  match ho : e.owners with
  | [k] =>
    have ho' : (e.rename ρ).owners = [ρ k] := by simp [rename, ho]
    rw [settle_of_owners ho, settle_of_owners ho', copy?_rename hρ, dropCopy_rename hρ,
      fixed_rename]
    cases e.copy? k <;> cases e.fixed <;> rfl
  | [] => simp [settle, rename, ho]
  | _ :: _ :: _ => simp [settle, rename, ho]

theorem reassign_rename (e : Element) (k l : ClusterId) :
    (e.rename ρ).reassign (ρ k) (ρ l) = (e.reassign k l).rename ρ := by
  have hempty : (e.rename ρ).owners.isEmpty = e.owners.isEmpty := by simp [rename]
  have hothers : (e.rename ρ).owners.filter (· ≠ ρ k) = (e.owners.filter (· ≠ k)).map ρ :=
    filter_map_key hρ (·) ρ (fun _ => rfl) e.owners k
  simp only [reassign, hempty, hothers, List.mem_map_of_injective hρ, copy?_rename hρ,
    dropCopy_rename hρ]
  split
  · rfl
  · split
    · exact settle_rename hρ { e.dropCopy k with owners := e.owners.filter (· ≠ k) }
    · rw [← settle_rename hρ, setOwners_rename]
      split
      · rw [putCopy_rename hρ]
      · rfl

theorem startShape_rename (e : Element) :
    Sketch.startShape (e.rename ρ) = Sketch.startShape e := by
  obtain ⟨id, shape, fixed, level, owners, copies⟩ := e
  cases owners with
  | nil => rfl
  | cons k rest => exact shapeIn_rename hρ _ k

end Element

end RigidSketch
