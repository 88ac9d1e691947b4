import PropzaAmlak.JobQueue.Dispatch

/-! What the operations on one job leave alone. -/

namespace JobQueue

open ChannelQueue Channel Place

namespace Channel

variable {c c' c'' : Channel} {r x : Ref} {jobs : Jobs} {own q : Path}

/-- `c'` comes from `c`, the channel at `q`, by operations on `r`, which belongs
to `own`. -/
structure Edited (jobs : Jobs) (r : Ref) (own q : Path) (c c' : Channel) : Prop where
  tidy : Tidy jobs c.queue → Tidy jobs c'.queue
  etaHeap : ∀ x ∈ c'.queue.etaQueue.heap, x ∈ c.queue.etaQueue.heap ∨ x = r ∧ q = own
  refers : ∀ x, c'.Refers x → c.Refers x ∨ x = r
  running : c'.running ⊆ insert r c.running
  sequential : c'.queue.sequential = c.queue.sequential
  capacity : c'.capacity = c.capacity
  throttle : c'.throttle = c.throttle
  pauseUntil : c'.pauseUntil = c.pauseUntil

theorem Edited.refl : Edited jobs r own q c c :=
  ⟨id, fun _ hx => Or.inl hx, fun _ hx => Or.inl hx, Finset.subset_insert _ _, rfl, rfl, rfl, rfl⟩

theorem Edited.trans (h : Edited jobs r own q c c') (h' : Edited jobs r own q c' c'') :
    Edited jobs r own q c c'' := by
  refine ⟨fun ht => h'.tidy (h.tidy ht), fun x hx => ?_, fun x hx => ?_, fun x hx => ?_,
    h'.sequential.trans h.sequential, h'.capacity.trans h.capacity, h'.throttle.trans h.throttle,
    h'.pauseUntil.trans h.pauseUntil⟩
  · rcases h'.etaHeap x hx with hx | hx
    · exact h.etaHeap x hx
    · exact Or.inr hx
  · rcases h'.refers x hx with hx | hx
    · exact h.refers x hx
    · exact Or.inr hx
  · rcases Finset.mem_insert.mp (h'.running hx) with hx | hx
    · exact hx ▸ Finset.mem_insert_self _ _
    · exact h.running hx

theorem edited_discard : Edited jobs r own q c (discard r c) := by
  refine ⟨fun h => h.remove, fun x hx => Or.inl ?_, fun x hx => Or.inl ?_, ?_, rfl, rfl, rfl, rfl⟩
  · simpa [discard, ChannelQueue.remove] using hx
  · simp only [Refers, discard, ChannelQueue.remove, PriorityQueue.heap_remove, Finset.mem_erase] at hx ⊢
    tauto
  · exact (Finset.erase_subset _ _).trans (Finset.subset_insert _ _)

theorem edited_run : Edited jobs r own q c (Channel.run r c) := by
  refine ⟨fun h => h.remove, fun x hx => Or.inl ?_, fun x hx => ?_, Finset.Subset.refl _, rfl, rfl, rfl, rfl⟩
  · simpa [Channel.run, ChannelQueue.remove] using hx
  · simp only [Refers, Channel.run, ChannelQueue.remove, PriorityQueue.heap_remove, Finset.mem_erase,
      Finset.mem_insert] at hx ⊢
    tauto

theorem edited_fail : Edited jobs r own q c (Channel.fail r c) := by
  refine ⟨fun h => h.remove, fun x hx => Or.inl ?_, fun x hx => ?_, ?_, rfl, rfl, rfl, rfl⟩
  · simpa [Channel.fail, ChannelQueue.remove] using hx
  · simp only [Refers, Channel.fail, ChannelQueue.remove, PriorityQueue.heap_remove, Finset.mem_erase,
      Finset.mem_insert] at hx ⊢
    tauto
  · exact (Finset.erase_subset _ _).trans (Finset.subset_insert _ _)

theorem edited_pend : Edited jobs r own own c (pend jobs r c) := by
  refine ⟨fun h => h.add, fun x hx => ?_, fun x hx => ?_, ?_, sequential_add, rfl, rfl, rfl⟩
  · simp only [pend, ChannelQueue.add] at hx
    split at hx
    · rcases PriorityQueue.mem_heap_add.mp hx with hx | hx
      · exact Or.inr ⟨hx, rfl⟩
      · exact Or.inl hx
    · exact Or.inl hx
  · simp only [Refers, pend, ChannelQueue.add, Finset.mem_erase] at hx
    split at hx
    · simp only [PriorityQueue.mem_heap_add] at hx
      simp only [Refers]
      tauto
    · simp only [PriorityQueue.mem_heap_add] at hx
      simp only [Refers]
      tauto
  · exact (Finset.erase_subset _ _).trans (Finset.subset_insert _ _)

end Channel

namespace Channels

variable {s s' s'' : Channels} {r x : Ref} {p q own : Path} {place : Place}

/-- `s'` comes from `s` by operations on `r`, which belongs to `own`. -/
structure Worked (r : Ref) (own : Path) (s s' : Channels) : Prop where
  job : s'.job = s.job
  channel : ∀ q, ¬ q <:+ own → s'.channel q = s.channel q
  edited : ∀ q, Edited s.job r own q (s.channel q) (s'.channel q)
  sight : ∀ x, x ≠ r → ∀ q, s'.sight x q = s.sight x q

theorem Worked.refl : Worked r own s s := ⟨rfl, fun _ _ => rfl, fun _ => Edited.refl, fun _ _ _ => rfl⟩

theorem Worked.trans (h : Worked r own s s') (h' : Worked r own s' s'') : Worked r own s s'' := by
  refine ⟨h'.job.trans h.job, fun q hq => (h'.channel q hq).trans (h.channel q hq), fun q => ?_,
    fun x hx q => (h'.sight x hx q).trans (h.sight x hx q)⟩
  have hedited := h'.edited q
  rw [h.job] at hedited
  exact (h.edited q).trans hedited

theorem worked_modify {f : Channel → Channel} (hp : p <:+ own)
    (hf : Edited s.job r own p (s.channel p) (f (s.channel p)))
    (hsight : ∀ x, x ≠ r → (f (s.channel p)).sight x = (s.channel p).sight x) : Worked r own s (s.modify p f) := by
  refine ⟨rfl, fun q hq => ?_, fun q => ?_, fun x hx q => ?_⟩
  · refine channel_modify_of_ne ?_
    rintro rfl
    exact hq hp
  · by_cases hq : q = p
    · subst hq
      rwa [channel_modify_self]
    · rw [channel_modify_of_ne hq]
      exact Edited.refl
  · by_cases hq : q = p
    · subst hq
      rw [sight_modify_self, hsight x hx, Channels.sight]
    · rw [sight_modify_of_ne hq]

theorem worked_discard (hp : p <:+ own) : Worked r own s (s.modify p (discard r)) :=
  worked_modify hp edited_discard fun x hx => by rw [sight_discard, if_neg hx]

theorem worked_remove (hp : p <:+ own) : Worked r own s (remove r p s) := by
  induction p generalizing s with
  | nil => exact worked_discard hp
  | cons n p ih => exact (worked_discard hp).trans (ih ((List.suffix_cons n p).trans hp))

theorem worked_removeFromParent (hp : p <:+ own) : Worked r own s (removeFromParent r p s) := by
  cases p with
  | nil => exact Worked.refl
  | cons n p => exact worked_remove ((List.suffix_cons n p).trans hp)

theorem worked_setPending : Worked r own s (setPending r own s) := by
  rw [setPending]
  split
  · exact Worked.refl
  · refine Worked.trans ?_ (worked_removeFromParent List.suffix_rfl)
    exact worked_modify List.suffix_rfl edited_pend fun x hx => by rw [sight_pend, if_neg hx]

theorem worked_setFailed : Worked r own s (setFailed r own s) := by
  rw [setFailed]
  split
  · exact Worked.refl
  · refine Worked.trans ?_ (worked_removeFromParent List.suffix_rfl)
    exact worked_modify List.suffix_rfl edited_fail fun x hx => by rw [sight_fail, if_neg hx]

theorem worked_run (hp : p <:+ own) : Worked r own s (s.modify p (Channel.run r)) :=
  worked_modify hp edited_run fun x hx => by rw [sight_run, if_neg hx]

theorem worked_setRunning (hp : p <:+ own) : Worked r own s (setRunning r p s) := by
  induction p generalizing s with
  | nil =>
    rw [setRunning]
    split
    · exact Worked.refl
    · exact worked_run hp
  | cons n p ih =>
    rw [setRunning]
    split
    · exact Worked.refl
    · exact (worked_run hp).trans (ih ((List.suffix_cons n p).trans hp))

theorem Worked.kept (h : Worked r own s s') (hk : s.Kept) (hown : (s.job r).channel = own) : s'.Kept := by
  refine ⟨fun p => ?_, fun p x hx => ?_, fun p hpause => ?_⟩
  · rw [h.job]
    exact (h.edited p).tidy (hk.tidy p)
  · rw [h.job]
    rcases (h.edited p).etaHeap x hx with hx | ⟨rfl, rfl⟩
    · exact hk.ownEta p x hx
    · exact hown
  · rw [(h.edited p).pauseUntil] at hpause
    rw [(h.edited p).throttle]
    exact hk.throttled p hpause

theorem Worked.wellPlaced (h : Worked r own s s') (hp : s.WellPlaced) (hown : (s.job r).channel = own)
    (hat : s'.At own r place) (hlevel : ∀ m, place = .flowing m → m ≤ own.length + 1) : s'.WellPlaced := by
  intro x
  rw [h.job]
  by_cases hx : x = r
  · subst hx
    rw [hown]
    exact ⟨place, hat, hlevel⟩
  · obtain ⟨place', hat', hlevel'⟩ := hp x
    exact ⟨place', hat'.of_sight_eq (h.sight x hx), hlevel'⟩

end Channels

end JobQueue
