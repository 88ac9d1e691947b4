import Mathlib.Data.List.Nodup

/-! A ledger in which the first entry under a key is final. -/

namespace Ledger

variable {α κ : Type} [DecidableEq κ] {key : α → κ} {log : List α} {a b : α}

/-- An entry under a key that is taken changes nothing. -/
def enter (key : α → κ) (log : List α) (a : α) : List α :=
  if key a ∈ log.map key then log else log ++ [a]

theorem enter_taken (h : key a ∈ log.map key) : enter key log a = log := if_pos h

theorem enter_new (h : key a ∉ log.map key) : enter key log a = log ++ [a] := if_neg h

theorem subset_enter (key : α → κ) (log : List α) (a : α) : log ⊆ enter key log a := by
  by_cases h : key a ∈ log.map key
  · rw [enter_taken h]
    exact List.Subset.refl log
  · rw [enter_new h]
    exact List.subset_append_left log [a]

theorem mem_or_eq_of_mem_enter (h : b ∈ enter key log a) : b ∈ log ∨ b = a := by
  by_cases ha : key a ∈ log.map key
  · rw [enter_taken ha] at h
    exact Or.inl h
  · rw [enter_new ha] at h
    simpa using h

theorem key_mem_enter (key : α → κ) (log : List α) (a : α) : key a ∈ (enter key log a).map key := by
  by_cases h : key a ∈ log.map key
  · rwa [enter_taken h]
  · rw [enter_new h]
    simp

theorem enter_nodup (h : (log.map key).Nodup) (a : α) : ((enter key log a).map key).Nodup := by
  by_cases ha : key a ∈ log.map key
  · rwa [enter_taken ha]
  · rw [enter_new ha, List.map_append]
    apply List.nodup_append.mpr
    refine ⟨h, by simp, ?_⟩
    intro k hk k' hk' hkk'
    have hk' : k' = key a := by simpa using hk'
    exact ha (hk' ▸ hkk' ▸ hk)

omit [DecidableEq κ] in
/-- A round that enters what it `sends`, and entries `aside` that are not
about the matter: after it the ledger has just the entries asked for, exactly if
it had no other ones, the round sends what it had not, and no key hides one of
them behind another entry. -/
theorem settled_iff {log' : List α} (about : α → Prop) {asks sends aside : α → Prop} (hkept : log ⊆ log')
    (hmade : ∀ q ∈ log', q ∈ log ∨ sends q ∨ aside q) (hsent : ∀ q, sends q → key q ∈ log'.map key)
    (hnodup : (log'.map key).Nodup) (hsends : ∀ q, sends q → asks q)
    (haside : ∀ q, aside q → ¬ about q ∧ ∀ a, asks a → key q ≠ key a) :
    ((∀ q ∈ log', about q → asks q) ∧ ∀ q, asks q → q ∈ log') ↔
      (∀ q ∈ log, about q → asks q) ∧ (∀ q, asks q → q ∈ log ∨ sends q) ∧
        ∀ q, asks q → ∀ r, r ∈ log ∨ asks r → key r = key q → r = q := by
  constructor
  · rintro ⟨hall, hcomplete⟩
    refine ⟨fun q hq => hall q (hkept hq), ?_, ?_⟩
    · intro q hq
      rcases hmade q (hcomplete q hq) with hlog | hsends | hq'
      · exact Or.inl hlog
      · exact Or.inr hsends
      · exact absurd rfl ((haside q hq').2 q hq)
    · intro q hq r hr hkey
      have hr' : r ∈ log' := by
        rcases hr with hr | hr
        · exact hkept hr
        · exact hcomplete r hr
      exact List.inj_on_of_nodup_map hnodup hr' (hcomplete q hq) hkey
  · rintro ⟨hall, hcomplete, hhidden⟩
    constructor
    · intro q hq habout
      rcases hmade q hq with hlog | hsent | hq'
      · exact hall q hlog habout
      · exact hsends q hsent
      · exact absurd habout (haside q hq').1
    · intro q hq
      rcases hcomplete q hq with hlog | hsend
      · exact hkept hlog
      · obtain ⟨r, hr, hkey⟩ := List.mem_map.mp (hsent q hsend)
        have hrq : r = q := by
          rcases hmade r hr with hlog | hr' | hr'
          · exact hhidden q hq r (Or.inl hlog) hkey
          · exact hhidden q hq r (Or.inr (hsends r hr')) hkey
          · exact absurd hkey ((haside r hr').2 q hq)
        exact hrq ▸ hr

end Ledger
