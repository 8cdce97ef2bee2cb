import DesignLint.Proofs.Regex.Search

/-!
# Groups of a match

The code of a pattern encloses its groups (`Node.exists_encloses`): a thread that has recorded the
start of a group stays inside the group until it records the end. So a thread that is outside has
recorded the end of a group not before the start of it (`Thread.Nested`), each instruction keeps it
so, and a group of a match lies in the match and ends where it starts or behind
(`Program.Found.le`).
-/

namespace DesignLint.Regex

/-- The addresses at which a thread may go on behind an instruction. -/
def Instruction.next (address : Nat) : Instruction → List Nat
  | .split first second => [first, second]
  | .jump target => [target]
  | _ => [address + 1]

theorem mem_next_branch {greedy : Bool} {more done address b : Nat} :
    b ∈ (branch greedy more done).next address ↔ b = more ∨ b = done := by
  cases greedy
  · simp [branch, Instruction.next, or_comm]
  · simp [branch, Instruction.next]

/-! ### Code encloses groups -/

/-- Code that is laid out from an address on encloses a group at the addresses `inside`: they are
entered when the start of the group is recorded and left when the end is. Wherever the code goes on
is between `low` and `high`. -/
structure Encloses (index low high base : Nat) (code : List Instruction) (inside : Nat → Prop) :
    Prop where
  range : ∀ (k : Nat) (i : Instruction), code[k]? = some i →
    ∀ b ∈ i.next (base + k), low ≤ b ∧ b ≤ high
  bounds : ∀ a, inside a → base ≤ a ∧ a < base + code.length
  enters : ∀ k, code[k]? = some (.save (2 * index)) → inside (base + k + 1)
  leaves : ∀ (k : Nat) (i : Instruction), code[k]? = some i → inside (base + k) →
    i = .save (2 * index + 1) ∨ ∀ b ∈ i.next (base + k), inside b

namespace Encloses

variable {index low high base : Nat} {code code' : List Instruction} {inside inside' : Nat → Prop}

theorem nil : Encloses index low high base [] fun _ => False :=
  ⟨by simp, by simp, by simp, by simp⟩

theorem single {i : Instruction} (hi : i ≠ .save (2 * index))
    (hr : ∀ b ∈ i.next base, low ≤ b ∧ b ≤ high) :
    Encloses index low high base [i] fun _ => False := by
  refine ⟨fun k j hk => ?_, by simp, fun k hk => ?_, by simp⟩
  · obtain ⟨hlt, rfl⟩ := List.getElem?_eq_some_iff.mp hk
    obtain rfl : k = 0 := by simpa using hlt
    simpa using hr
  · obtain ⟨hlt, heq⟩ := List.getElem?_eq_some_iff.mp hk
    obtain rfl : k = 0 := by simpa using hlt
    exact absurd heq hi

theorem branch {greedy : Bool} {more done : Nat} (hmore : low ≤ more ∧ more ≤ high)
    (hdone : low ≤ done ∧ done ≤ high) :
    Encloses index low high base [branch greedy more done] fun _ => False := by
  refine single (by cases greedy <;> simp [Regex.branch]) fun b hb => ?_
  rcases mem_next_branch.mp hb with rfl | rfl
  · exact hmore
  · exact hdone

theorem mono (h : Encloses index low high base code inside) {low' high' : Nat} (hl : low' ≤ low)
    (hh : high ≤ high') : Encloses index low' high' base code inside := by
  refine ⟨fun k i hk b hb => ?_, h.bounds, h.enters, h.leaves⟩
  have := h.range k i hk b hb
  omega

theorem append {base' : Nat} (hbase : base' = base + code.length)
    (h : Encloses index low high base code inside)
    (h' : Encloses index low high base' code' inside') :
    Encloses index low high base (code ++ code') fun a => inside a ∨ inside' a := by
  subst hbase
  have hright : ∀ {k : Nat} {i : Instruction}, ¬ k < code.length → (code ++ code')[k]? = some i →
      code'[k - code.length]? = some i ∧ base + code.length + (k - code.length) = base + k := by
    intro k i hk hi
    rw [List.getElem?_append_right (by omega)] at hi
    exact ⟨hi, by omega⟩
  have hleft : ∀ {k : Nat} {i : Instruction}, k < code.length →
      (code ++ code')[k]? = some i → code[k]? = some i := by
    intro k i hk hi
    rwa [List.getElem?_append_left hk] at hi
  constructor
  · intro k i hi
    by_cases hk : k < code.length
    · exact h.range k i (hleft hk hi)
    · obtain ⟨hi, heq⟩ := hright hk hi
      rw [← heq]
      exact h'.range _ i hi
  · intro a ha
    rw [List.length_append]
    rcases ha with ha | ha
    · have := h.bounds a ha
      omega
    · have := h'.bounds a ha
      omega
  · intro k hi
    by_cases hk : k < code.length
    · exact Or.inl (h.enters k (hleft hk hi))
    · obtain ⟨hi, heq⟩ := hright hk hi
      rw [← heq]
      exact Or.inr (h'.enters _ hi)
  · intro k i hi hin
    by_cases hk : k < code.length
    · have hin := hin.resolve_right fun hr => by
        have := h'.bounds _ hr
        omega
      exact (h.leaves k i (hleft hk hi) hin).imp_right fun hall b hb => Or.inl (hall b hb)
    · obtain ⟨hi, heq⟩ := hright hk hi
      have hin := hin.resolve_left fun hl => by
        have := h.bounds _ hl
        omega
      rw [← heq] at hin ⊢
      exact (h'.leaves _ i hi hin).imp_right fun hall b hb => Or.inr (hall b hb)

theorem capture (h : Encloses index (base + 1) (base + 1 + code.length) (base + 1) code inside) :
    Encloses index base (base + code.length + 2) base
      (.save (2 * index) :: code ++ [.save (2 * index + 1)])
      fun a => base < a ∧ a < base + code.length + 2 := by
  have hcases : ∀ {k : Nat} {i : Instruction},
      (.save (2 * index) :: code ++ [.save (2 * index + 1)])[k]? = some i →
      (k = 0 ∧ i = .save (2 * index)) ∨ (∀ b ∈ i.next (base + k), base < b ∧
        b < base + code.length + 2) ∨ (k = code.length + 1 ∧ i = .save (2 * index + 1)) := by
    intro k i hi
    cases k with
    | zero => exact Or.inl ⟨rfl, by simpa using hi.symm⟩
    | succ k =>
      rw [List.cons_append, List.getElem?_cons_succ] at hi
      by_cases hk : k < code.length
      · rw [List.getElem?_append_left hk] at hi
        refine Or.inr (Or.inl fun b hb => ?_)
        have := h.range k i hi b (by rwa [Nat.add_right_comm, Nat.add_assoc])
        omega
      · rw [List.getElem?_append_right (by omega)] at hi
        obtain ⟨hlt, heq⟩ := List.getElem?_eq_some_iff.mp hi
        have hk : k = code.length := by simp at hlt; omega
        exact Or.inr (Or.inr ⟨by rw [hk], by simpa using heq.symm⟩)
  constructor
  · intro k i hi b hb
    rcases hcases hi with ⟨rfl, rfl⟩ | hall | ⟨rfl, rfl⟩
    · obtain rfl := List.mem_singleton.mp hb
      omega
    · have := hall b hb
      omega
    · obtain rfl := List.mem_singleton.mp hb
      omega
  · intro a ha
    simp only [List.length_append, List.length_cons, List.length_nil]
    omega
  · intro k hi
    rcases hcases hi with ⟨rfl, -⟩ | hall | ⟨-, heq⟩
    · omega
    · exact hall _ (by simp [Instruction.next])
    · simp only [Instruction.save.injEq] at heq
      omega
  · intro k i hi hin
    rcases hcases hi with ⟨rfl, -⟩ | hall | ⟨-, rfl⟩
    · omega
    · exact Or.inr hall
    · exact Or.inl rfl

/-- Copies of code that encloses a group, one after the other. -/
theorem exists_copies {size : Nat} {piece : Nat → List Instruction}
    (hlen : ∀ base, (piece base).length = size)
    (h : ∀ base, ∃ inside, Encloses index base (base + size) base (piece base) inside)
    (n base : Nat) :
    ∃ inside, Encloses index base (base + n * size) base (copies size piece n base) inside := by
  induction n generalizing base with
  | zero => exact ⟨_, nil⟩
  | succ n ih =>
    obtain ⟨inside, hfirst⟩ := h base
    obtain ⟨inside', hrest⟩ := ih (base + size)
    rw [copies, Nat.succ_mul]
    exact ⟨_, append (by rw [hlen]) (hfirst.mono (Nat.le_refl _) (by omega))
      (hrest.mono (by omega) (by omega))⟩

theorem exists_options {size : Nat} {piece : Nat → List Instruction}
    (hlen : ∀ base, (piece base).length = size)
    (h : ∀ base, ∃ inside, Encloses index base (base + size) base (piece base) inside)
    (greedy : Bool) {done n base : Nat} (hdone : base + n * (size + 1) ≤ done) :
    ∃ inside, Encloses index base done base (options size piece greedy done n base) inside := by
  induction n generalizing base with
  | zero => exact ⟨_, nil⟩
  | succ n ih =>
    rw [Nat.succ_mul] at hdone
    obtain ⟨inside, hfirst⟩ := h (base + 1)
    have hfits : base + 1 + size + n * (size + 1) ≤ done := by omega
    obtain ⟨inside', hrest⟩ := ih hfits
    exact ⟨_, append (by simp [hlen]; omega)
      ((branch (by omega) (by omega)).append rfl (hfirst.mono (by omega) (by omega)))
      (hrest.mono (by omega) (Nat.le_refl _))⟩

end Encloses

/-- **The code of a pattern encloses its groups.** -/
theorem Node.exists_encloses (p : Node) (index base : Nat) :
    ∃ inside, Encloses index base (base + p.size) base (p.code base) inside := by
  fun_induction Node.size p generalizing base with
  | case1 => exact ⟨_, .nil⟩
  | case2 c => exact ⟨_, .single (by simp) (by simp [Instruction.next])⟩
  | case3 a => exact ⟨_, .single (by simp) (by simp [Instruction.next])⟩
  | case4 a b iha ihb =>
    obtain ⟨_, ha⟩ := iha base
    obtain ⟨_, hb⟩ := ihb (base + a.size)
    exact ⟨_, .append (by rw [a.length_code]) (ha.mono (Nat.le_refl _) (by omega))
      (hb.mono (by omega) (by omega))⟩
  | case5 a b iha ihb =>
    obtain ⟨_, ha⟩ := iha (base + 1)
    obtain ⟨_, hb⟩ := ihb (base + a.size + 2)
    have hsplit : Encloses index base (base + (a.size + b.size + 2)) base
        [.split (base + 1) (base + a.size + 2)] _ :=
      .single (by simp) (by simp [Instruction.next]; omega)
    have hjump : Encloses index base (base + (a.size + b.size + 2)) (base + 1 + a.size)
        [.jump (base + a.size + 2 + b.size)] _ :=
      .single (by simp) (by simp [Instruction.next]; omega)
    exact ⟨_, (hsplit.append rfl (ha.mono (by omega) (by omega))).append
      (by simp [a.length_code]; omega) (hjump.append (by simp; omega)
        (hb.mono (by omega) (by omega)))⟩
  | case6 least most greedy body ih =>
    obtain ⟨_, hcopies⟩ := Encloses.exists_copies body.length_code ih least base
    obtain ⟨_, hoptions⟩ := Encloses.exists_options body.length_code ih greedy (Nat.le_refl
      (base + least * body.size + (most - least) * (body.size + 1)))
    exact ⟨_, (hcopies.mono (Nat.le_refl _) (by omega)).append
      (by rw [length_copies body.length_code]) (hoptions.mono (by omega) (by omega))⟩
  | case7 greedy body ih =>
    obtain ⟨_, hbody⟩ := ih (base + 1)
    have hbranch : ∀ {at' : Nat}, Encloses index base (base + (body.size + 2)) at'
        [branch greedy (base + 1) (base + body.size + 2)] fun _ => False :=
      .branch (by omega) (by omega)
    have hlast : Encloses index base (base + (body.size + 2)) (base + 1 + body.size)
        [if body.nullable then branch greedy (base + 1) (base + body.size + 2) else .jump base]
        fun _ => False := by
      split_ifs
      · exact hbranch
      · exact .single (by simp) (by simp [Instruction.next])
    exact ⟨_, (hbranch.append rfl (hbody.mono (by omega) (by omega))).append
      (by simp [body.length_code]; omega) hlast⟩
  | case8 least greedy body ih =>
    obtain ⟨_, hcopies⟩ := Encloses.exists_copies body.length_code ih (least + 1) base
    have hsize : (least + 1) * body.size = least * body.size + body.size := Nat.succ_mul _ _
    exact ⟨_, (hcopies.mono (Nat.le_refl _) (by omega)).append
      (by rw [length_copies body.length_code]) (.branch (by omega) (by omega))⟩
  | case9 index' body ih =>
    obtain ⟨_, hbody⟩ := ih (base + 1)
    by_cases hi : index' = index
    · subst hi
      rw [← body.length_code (base + 1)] at hbody
      have := hbody.capture
      rw [body.length_code] at this
      exact ⟨_, this⟩
    · have hstart : Encloses index base (base + (body.size + 2)) base [.save (2 * index')] _ :=
        .single (by simp; omega) (by simp [Instruction.next])
      have hstop : Encloses index base (base + (body.size + 2)) (base + 1 + body.size)
          [.save (2 * index' + 1)] _ :=
        .single (by simp; omega) (by simp [Instruction.next]; omega)
      exact ⟨_, (hstart.append rfl (hbody.mono (by omega) (by omega))).append
        (by simp [body.length_code]; omega) hstop⟩

/-! ### Threads stay in groups -/

/-- A thread that has recorded offsets between `low` and where it is, and outside of a group no end
of it before its start. -/
structure Thread.Nested (index low : Nat) (inside : Nat → Prop) (t : Thread) : Prop where
  le : low ≤ t.point.offset
  slots : ∀ s ∈ t.slots, low ≤ s.2 ∧ s.2 ≤ t.point.offset
  ordered : ¬ inside t.address → ∀ start ∈ t.slots.lookup (2 * index),
    ∀ stop ∈ t.slots.lookup (2 * index + 1), start ≤ stop

theorem Point.le_next? {p q : Point} {c : Char} (h : p.next? = some (c, q)) :
    p.offset ≤ q.offset := by
  unfold next? at h
  split at h
  · cases h
  · cases h
    exact Nat.le_add_right _ _

theorem mem_of_mem_lookup {n o : Nat} {slots : List (Nat × Nat)} (h : o ∈ slots.lookup n) :
    (n, o) ∈ slots := by
  obtain ⟨l₁, l₂, heq, -⟩ := List.lookup_eq_some_iff.mp h
  simp [heq]

namespace Thread.Nested

variable {index low high base : Nat} {code : List Instruction} {inside : Nat → Prop} {t : Thread}

theorem move (h : t.Nested index low inside) {address : Nat} {point : Point}
    (hin : inside t.address → inside address) (hp : t.point.offset ≤ point.offset) :
    Thread.Nested index low inside ⟨address, point, t.slots⟩ := by
  refine ⟨Nat.le_trans h.le hp, fun s hs => ?_, fun hout => h.ordered fun ha => hout (hin ha)⟩
  have := h.slots s hs
  exact ⟨this.1, Nat.le_trans this.2 hp⟩

/-- An offset that is recorded lies behind all others. -/
theorem save (h : t.Nested index low inside) {slot : Nat}
    (henter : slot = 2 * index → inside (t.address + 1))
    (hleave : inside t.address → slot = 2 * index + 1 ∨ inside (t.address + 1)) :
    Thread.Nested index low inside ⟨t.address + 1, t.point, (slot, t.point.offset) :: t.slots⟩ := by
  refine ⟨h.le, fun s hs => ?_, fun hout start hstart stop hstop => ?_⟩
  · rcases List.mem_cons.mp hs with rfl | hs
    · exact ⟨h.le, Nat.le_refl _⟩
    · exact h.slots s hs
  · have hne : 2 * index ≠ slot := fun heq => hout (henter heq.symm)
    rw [List.lookup_cons, beq_false_of_ne hne] at hstart
    by_cases hslot : slot = 2 * index + 1
    · obtain rfl : t.point.offset = stop := by simpa [hslot] using hstop
      exact (h.slots _ (mem_of_mem_lookup hstart)).2
    · rw [List.lookup_cons, beq_false_of_ne (Ne.symm hslot)] at hstop
      have hin : ¬ inside t.address := fun ha => hout ((hleave ha).resolve_left hslot)
      exact h.ordered hin start hstart stop hstop

/-- **An instruction of code that encloses a group keeps threads nested.** -/
theorem step (henc : Encloses index low high base code inside) {k : Nat} {i : Instruction}
    (hi : code[k]? = some i) {n : Nat} (h : t.Nested index n inside) (ht : t.address = base + k) :
    ∀ u ∈ t.step i, u.Nested index n inside := by
  intro u hu
  have hleave : inside t.address → i = .save (2 * index + 1) ∨ ∀ b ∈ i.next t.address, inside b :=
    fun hin => by
      rw [ht] at hin ⊢
      exact henc.leaves k i hi hin
  have hgo : (∀ slot, i ≠ .save slot) → ∀ b ∈ i.next t.address, inside t.address → inside b :=
    fun hne b hb hin => (hleave hin).resolve_left (hne _) b hb
  cases i with
  | one c =>
    have hgo := hgo (by simp) (t.address + 1) (by simp [Instruction.next])
    simp only [Thread.step] at hu
    split at hu
    · next d p hn =>
      split_ifs at hu
      · obtain rfl := List.mem_singleton.mp hu
        exact h.move hgo (Point.le_next? hn)
      · simp at hu
    · simp at hu
  | check a =>
    have hgo := hgo (by simp) (t.address + 1) (by simp [Instruction.next])
    simp only [Thread.step] at hu
    split_ifs at hu
    · obtain rfl := List.mem_singleton.mp hu
      exact h.move hgo (Nat.le_refl _)
    · simp at hu
  | split first second =>
    have hgo := hgo (by simp)
    simp only [Thread.step, List.mem_cons, List.not_mem_nil, or_false] at hu
    rcases hu with rfl | rfl
    · exact h.move (hgo _ (by simp [Instruction.next])) (Nat.le_refl _)
    · exact h.move (hgo _ (by simp [Instruction.next])) (Nat.le_refl _)
  | jump target =>
    obtain rfl := List.mem_singleton.mp hu
    exact h.move (hgo (by simp) _ (by simp [Instruction.next])) (Nat.le_refl _)
  | save slot =>
    obtain rfl := List.mem_singleton.mp hu
    refine h.save (fun heq => ?_) fun hin => ?_
    · rw [ht]
      exact henc.enters k (by rw [hi, heq])
    · simpa [Instruction.next] using hleave hin

end Thread.Nested

/-! ### Groups of a match -/

namespace Program

/-- A match is what a run from some point of the text ends with. -/
def Found (p : Program) (m : Match) : Prop :=
  ∃ fuel seen seen' start t, p.run fuel [⟨0, start, []⟩] seen = (some t, seen') ∧
    m = ⟨⟨start.offset, t.point.offset⟩, t.slots, t.point⟩

variable {p : Program} {m : Match}

theorem found_of_findFrom {before : Option Char} {o : Nat} {seen : Std.HashSet Nat} {rest : Text}
    (h : p.findFrom before o seen rest = some m) : p.Found m ∧ o ≤ m.span.start := by
  induction rest generalizing before o seen with
  | nil =>
    simp only [findFrom] at h
    split at h
    · next hr =>
      cases h
      exact ⟨⟨_, _, _, _, _, hr, rfl⟩, Nat.le_refl _⟩
    · cases h
  | cons c rest ih =>
    simp only [findFrom] at h
    split at h
    · next hr =>
      cases h
      exact ⟨⟨_, _, _, _, _, hr, rfl⟩, Nat.le_refl _⟩
    · obtain ⟨hfound, hle⟩ := ih h
      exact ⟨hfound, Nat.le_of_add_right_le hle⟩

/-- **A match ends where it starts or behind, and so does each of its groups, which lies in it.** -/
theorem Found.le {node : Node} (hp : p = .ofNode node) (h : p.Found m) :
    m.span.start ≤ m.span.stop ∧ ∀ index s, m.group? index = some s →
      m.span.start ≤ s.start ∧ s.start ≤ s.stop ∧ s.stop ≤ m.span.stop := by
  obtain ⟨fuel, seen, seen', start, t, hrun, rfl⟩ := h
  have hnested : ∀ index, ∃ inside, t.Nested index start.offset inside ∧ ¬ inside t.address := by
    intro index
    obtain ⟨inside, henc⟩ := node.exists_encloses index 0
    obtain ⟨ht, hend⟩ := of_run (P := Thread.Nested index start.offset inside)
      (fun t i hi ht => ht.step henc (by simpa [hp, ofNode] using hi) (by simp))
      (fun u hu => by
        obtain rfl := List.mem_singleton.mp hu
        exact ⟨Nat.le_refl _, by simp, by simp⟩) hrun
    refine ⟨inside, ht, fun hin => ?_⟩
    have := henc.bounds _ hin
    simp [hp, ofNode] at hend
    omega
  refine ⟨(hnested 0).elim fun _ h => h.1.le, fun index s hs => ?_⟩
  obtain ⟨inside, ht, hout⟩ := hnested index
  simp only [Match.group?, Option.bind_eq_bind, Option.bind_eq_some_iff, Option.pure_def,
    Option.some.injEq] at hs
  obtain ⟨o, ho, o', ho', rfl⟩ := hs
  exact ⟨(ht.slots _ (mem_of_mem_lookup ho)).1, ht.ordered hout o ho o' ho',
    (ht.slots _ (mem_of_mem_lookup ho')).2⟩

/-- Matches come from runs, one behind the other. -/
theorem found_of_findAllFrom {node : Node} (hp : p = .ofNode node) (last : Option Nat) (fuel : Nat)
    (q : Point) : (∀ m ∈ p.findAllFrom last fuel q, p.Found m ∧ q.offset ≤ m.span.start) ∧
      (p.findAllFrom last fuel q).Pairwise fun m m' => m.span.stop ≤ m'.span.start := by
  induction fuel generalizing last q with
  | zero => simp [findAllFrom]
  | succ fuel ih =>
    have hcons : ∀ {q' : Point} {m : Match}, q.offset ≤ q'.offset → p.find? q' = some m →
        (∀ m' ∈ m :: p.findAllFrom (some m.span.stop) fuel m.after,
          p.Found m' ∧ q.offset ≤ m'.span.start) ∧
        (m :: p.findAllFrom (some m.span.stop) fuel m.after).Pairwise
          fun m m' => m.span.stop ≤ m'.span.start := by
      intro q' m hq hm
      obtain ⟨hfound, hstart⟩ := found_of_findFrom hm
      have hle := (hfound.le hp).1
      have hafter : m.after.offset = m.span.stop := by
        obtain ⟨_, _, _, _, _, _, rfl⟩ := hfound
        rfl
      obtain ⟨hall, hpair⟩ := ih (some m.span.stop) m.after
      rw [hafter] at hall
      refine ⟨List.forall_mem_cons.mpr ⟨⟨hfound, by omega⟩, fun m' hm' => ?_⟩,
        List.pairwise_cons.mpr ⟨fun m' hm' => (hall m' hm').2, hpair⟩⟩
      obtain ⟨hfound', hstop⟩ := hall m' hm'
      exact ⟨hfound', by omega⟩
    rw [findAllFrom]
    split
    · simp
    · next m hm =>
      split_ifs
      · split
        · simp
        · next c q' hn =>
          split
          · simp
          · next m' hm' => exact hcons (Point.le_next? hn) hm'
      · exact hcons (Nat.le_refl _) hm

end Program

theorem Program.Found.getD_named? {r : Regex} {node : Node} (hr : r.program = .ofNode node)
    {m : Match} (h : r.program.Found m) (name : String) :
    m.span.start ≤ ((r.named? name m).getD m.span).start ∧
      ((r.named? name m).getD m.span).start ≤ ((r.named? name m).getD m.span).stop ∧
      ((r.named? name m).getD m.span).stop ≤ m.span.stop := by
  obtain ⟨hle, hgroup⟩ := h.le hr
  cases hn : r.named? name m with
  | none => exact ⟨Nat.le_refl _, hle, Nat.le_refl _⟩
  | some s =>
    obtain ⟨index, -, hs⟩ := Option.bind_eq_some_iff.mp hn
    exact hgroup index s hs

theorem exists_node_of_ofText {source : String} {r : Regex} (h : ofText source = .ok r) :
    ∃ node, r.program = .ofNode node := by
  unfold ofText at h
  cases hp : parse source.toList with
  | error e =>
    rw [hp] at h
    cases h
  | ok p =>
    rw [hp] at h
    cases h
    exact ⟨p.node, rfl⟩

end DesignLint.Regex
