import Mathlib.Data.List.Perm.Basic
import Mathlib.Data.List.Nodup
import Mathlib.Logic.Function.Basic

namespace Collect

variable {ι α : Type*} [DecidableEq ι]

def collect (f : ι → List α) : List ι → List α
  | [] => []
  | i :: rest => f i ++ collect (Function.update f i []) rest

@[simp] theorem collect_nil (f : ι → List α) : collect f [] = [] := rfl

theorem collect_cons (f : ι → List α) (i : ι) (rest : List ι) :
    collect f (i :: rest) = f i ++ collect (Function.update f i []) rest := rfl

theorem collect_append_singleton (f : ι → List α) (places : List ι) (i : ι) :
    collect f (places ++ [i]) = collect f places ++ if i ∈ places then [] else f i := by
  induction places generalizing f with
  | nil => simp [collect_cons]
  | cons j rest ih =>
      rw [List.cons_append, collect_cons, collect_cons, ih, List.append_assoc]
      by_cases same : i = j
      · simp [same]
      · simp [same]

theorem flatMap_single {whole : List ι} (nodup : whole.Nodup) {i : ι} (member : i ∈ whole)
    (f : ι → List α) : (whole.flatMap fun j => if j = i then f j else []) = f i := by
  induction whole with
  | nil => cases member
  | cons j rest ih =>
      rw [List.nodup_cons] at nodup
      rw [List.flatMap_cons]
      rcases List.mem_cons.mp member with same | later
      · subst same
        rw [if_pos rfl, List.flatMap_eq_nil_iff.mpr, List.append_nil]
        intro k inside
        apply if_neg
        intro equal
        exact nodup.1 (equal ▸ inside)
      · have different : j ≠ i := by
          intro equal
          exact nodup.1 (equal ▸ later)
        rw [if_neg different, List.nil_append, ih nodup.2 later]

theorem flatMap_perm {f : ι → List α} {part whole : List ι} (nodup : part.Nodup)
    (nodup' : whole.Nodup) (inside : ∀ i ∈ part, i ∈ whole)
    (empty : ∀ i ∈ whole, i ∉ part → f i = []) : (part.flatMap f).Perm (whole.flatMap f) := by
  have split : whole.Perm (part ++ whole.filter (· ∉ part)) := by
    apply (List.perm_ext_iff_of_nodup nodup' _).mpr
    · intro i
      by_cases member : i ∈ part
      · simp [member, inside i member]
      · simp [member]
    · rw [List.nodup_append]
      refine ⟨nodup, nodup'.filter _, ?_⟩
      intro i first j second same
      subst same
      simp [first] at second
  have nothing : (whole.filter (· ∉ part)).flatMap f = [] := by
    rw [List.flatMap_eq_nil_iff]
    intro i member
    simp only [List.mem_filter, decide_eq_true_eq] at member
    exact empty i member.1 member.2
  calc
    List.Perm (part.flatMap f) ((part ++ whole.filter (· ∉ part)).flatMap f) := by
      rw [List.flatMap_append, nothing, List.append_nil]
    List.Perm _ (whole.flatMap f) := (split.flatMap_right f).symm

theorem collect_perm {whole : List ι} (nodup : whole.Nodup) (f : ι → List α) {places : List ι}
    (inside : ∀ i ∈ places, i ∈ whole) :
    (collect f places).Perm (whole.flatMap fun i => if i ∈ places then f i else []) := by
  induction places generalizing f with
  | nil => simp
  | cons j rest ih =>
      have later := ih (Function.update f j []) fun i member =>
        inside i (List.mem_cons_of_mem _ member)
      have first := flatMap_single nodup (inside j List.mem_cons_self) f
      have both : ∀ i, ((if i = j then f i else []) ++
          if i ∈ rest then Function.update f j [] i else []) =
            if i ∈ j :: rest then f i else [] := by
        intro i
        by_cases same : i = j
        · simp [same]
        · simp [same]
      calc
        collect f (j :: rest) = f j ++ collect (Function.update f j []) rest := rfl
        List.Perm _ (f j ++ whole.flatMap fun i =>
            if i ∈ rest then Function.update f j [] i else []) := later.append_left _
        List.Perm _ (whole.flatMap fun i => (if i = j then f i else []) ++
            if i ∈ rest then Function.update f j [] i else []) := by
          rw [← first]
          exact List.flatMap_append_perm _ _ _
        _ = whole.flatMap fun i => if i ∈ j :: rest then f i else [] := by
          simp only [both]

omit [DecidableEq ι] in
theorem length_flatMap_le {f g : ι → List α} {whole : List ι}
    (shorter : ∀ i ∈ whole, (f i).length ≤ (g i).length) :
    (whole.flatMap f).length ≤ (whole.flatMap g).length := by
  induction whole with
  | nil => exact Nat.le_refl _
  | cons j rest ih =>
      rw [List.flatMap_cons, List.flatMap_cons, List.length_append, List.length_append]
      have now := shorter j List.mem_cons_self
      have later := ih fun i member => shorter i (List.mem_cons_of_mem _ member)
      omega

omit [DecidableEq ι] in
theorem length_eq_of_flatMap {f g : ι → List α} {whole : List ι}
    (shorter : ∀ i ∈ whole, (f i).length ≤ (g i).length)
    (total : (whole.flatMap f).length = (whole.flatMap g).length) :
    ∀ i ∈ whole, (f i).length = (g i).length := by
  induction whole with
  | nil => intro i member; cases member
  | cons j rest ih =>
      have now := shorter j List.mem_cons_self
      have after : ∀ i ∈ rest, (f i).length ≤ (g i).length := fun i member =>
        shorter i (List.mem_cons_of_mem _ member)
      have later := length_flatMap_le after
      rw [List.flatMap_cons, List.flatMap_cons, List.length_append, List.length_append] at total
      have rest_eq := ih after (by omega)
      intro i member
      rcases List.mem_cons.mp member with same | inside
      · subst same
        omega
      · exact rest_eq i inside

end Collect
