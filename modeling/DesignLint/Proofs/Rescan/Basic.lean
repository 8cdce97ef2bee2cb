import DesignLint.Proofs.Text.Place

/-!
# Scanning a text again

A scan looks at every point of a text and goes on behind what it finds (`scan`). Suppose that one
part of a text is replaced, that the scan has found this part, and that at every point in front of
it the scan of the new text finds the same, or something that reaches to the part (`Agree`). Then
what is found in the new part starts where the part does (`start_eq_of_mem_scan`). For scans that
look at the start of a line and behind certain characters (`findFrom`), it is enough that they agree
at a point (`start_eq_of_mem_scan_findFrom`).
-/

namespace DesignLint.Style

/-- Something that a scan has found: the points around its value. -/
structure Found where
  start : Cursor
  stop : Cursor

/-- Looks for something at every point of a text, but goes on `extra` characters behind what it has
found. `busy` characters still belong to the last find. -/
def scan (extra : Nat) (find : Option Char → Cursor → Option Found) (busy : Nat)
    (before : Option Char) (o : Nat) : Text → List Found
  | [] => []
  | c :: cs =>
    let rest (busy : Nat) := scan extra find busy (some c) (o + c.utf8Size) cs
    match busy with
    | busy + 1 => rest busy
    | 0 =>
      match find before ⟨o, c :: cs⟩ with
      | some f => f :: rest (cs.length + extra - f.stop.rest.length)
      | none => rest 0

/-- What is found at a point lies ahead of it. -/
def Finds (find : Option Char → Cursor → Option Found) : Prop :=
  ∀ before k f, find before k = some f →
    ∃ us vs, us ≠ [] ∧ k.Passes us f.start ∧ f.start.Passes vs f.stop

/-- What is found at a point in front of a part of a text, and in front of another text in place of
that part. The part starts at `n`, and `old` and `new` are what follows there. -/
inductive Agree (n : Nat) (old new : Text) (size : Nat) : Option Found → Option Found → Prop
  | none : Agree n old new size none none
  /-- Both are in front of the part. -/
  | before {f f' : Found} (us : Text) (hstart : f.start.offset < n) (hstop : f'.stop.offset ≤ n)
    (hrest : f.stop.rest = us ++ old) (hrest' : f'.stop.rest = us ++ new) :
    Agree n old new size (some f) (some f')
  /-- The first reaches behind the start of the part, but does not start there. -/
  | across {f : Found} (f'? : Option Found) (hstart : f.start.offset ≠ n)
    (hstop : n < f.stop.offset) : Agree n old new size (some f) f'?
  /-- The second reaches behind the new part, and starts with it or behind it. -/
  | beyond (f? : Option Found) {f' : Found}
    (hstart : f'.start.offset = n ∨ n + size ≤ f'.start.offset)
    (hstop : n + size ≤ f'.stop.offset) : Agree n old new size f? (some f')

section

variable {extra : Nat} {find : Option Char → Cursor → Option Found}

theorem lt_start_of_mem_scan (hfind : Finds find) {busy o : Nat} {before : Option Char}
    {cs us : Text} {f : Found} {l : Cursor} (h : f ∈ scan extra find busy before o cs)
    (hp : Cursor.Passes ⟨o, cs⟩ us l) (hbusy : us.length ≤ busy) : l.offset < f.start.offset := by
  induction cs generalizing busy before o us l with
  | nil => simp [scan] at h
  | cons c cs ih =>
    cases us with
    | nil =>
      obtain rfl : l = ⟨o, c :: cs⟩ := by
        obtain ⟨o', rest⟩ := l
        obtain ⟨h1, h2⟩ := hp
        simp only [List.nil_append, Text.size_nil, Nat.add_zero] at h1 h2
        rw [h1, h2]
      have hrest : ∀ {busy}, f ∈ scan extra find busy (some c) (o + c.utf8Size) cs →
          o < f.start.offset := by
        intro busy hmem
        have := ih hmem (.refl ⟨o + c.utf8Size, cs⟩) (by simp)
        have := c.utf8Size_pos
        simp only at *
        omega
      cases busy with
      | succ busy => exact hrest h
      | zero =>
        simp only [scan] at h
        split at h
        · next f' hf' =>
          rcases List.mem_cons.mp h with rfl | h
          · obtain ⟨us, vs, hne, hus, -⟩ := hfind _ _ _ hf'
            exact hus.lt hne
          · exact hrest h
        · exact hrest h
    | cons u us =>
      obtain ⟨hcs, ho⟩ := hp
      rw [List.cons_append, List.cons.injEq] at hcs
      obtain ⟨rfl, hcs⟩ := hcs
      cases busy with
      | zero => simp at hbusy
      | succ busy =>
        exact ih h ⟨hcs, by rw [ho, Text.size_cons]; simp only; omega⟩ (by simpa using hbusy)

/-- The rest of a scan lies behind what has been found. -/
theorem stop_lt_start_of_mem_scan (hfind : Finds find) {o : Nat} {before : Option Char} {c : Char}
    {cs : Text} {f f' : Found} (hf : find before ⟨o, c :: cs⟩ = some f)
    (h : f' ∈ scan extra find (cs.length + extra - f.stop.rest.length) (some c)
      (o + c.utf8Size) cs) :
    f.stop.offset < f'.start.offset := by
  obtain ⟨us, vs, hne, hus, hvs⟩ := hfind _ _ _ hf
  obtain ⟨hcs, ho⟩ := hus.trans hvs
  rcases us with _ | ⟨u, us⟩
  · exact absurd rfl hne
  rw [List.cons_append, List.cons_append, List.cons.injEq] at hcs
  obtain ⟨rfl, hcs⟩ := hcs
  refine lt_start_of_mem_scan hfind h ⟨hcs, ?_⟩ ?_
  · rw [ho, List.cons_append, Text.size_cons]
    simp only
    omega
  · rw [hcs, List.length_append]
    simp only [List.length_append]
    omega

/-- **What is found again in a part of a text starts where the part does**, if that part has been
found and both scans agree in front of it. -/
theorem start_eq_of_mem_scan (hfind : Finds find) {old new : Text} {size : Nat} {lead rest : Text}
    {busy : Nat}
    (hagree : ∀ (us : Text) (c : Char) (ws : Text), lead ++ rest = us ++ c :: ws →
      Agree (lead ++ rest).size old new size (find us.getLast? ⟨us.size, c :: ws ++ old⟩)
        (find us.getLast? ⟨us.size, c :: ws ++ new⟩))
    {f f' : Found} (hf : f ∈ scan extra find busy lead.getLast? lead.size (rest ++ old))
    (hstart : f.start.offset = (lead ++ rest).size)
    (hf' : f' ∈ scan extra find busy lead.getLast? lead.size (rest ++ new)) :
    f'.stop.offset ≤ (lead ++ rest).size ∨ f'.start.offset = (lead ++ rest).size ∨
      (lead ++ rest).size + size ≤ f'.start.offset := by
  induction rest generalizing lead busy with
  | nil =>
    have := lt_start_of_mem_scan hfind hf (.refl _) (Nat.zero_le _)
    rw [hstart, List.append_nil] at this
    exact absurd this (Nat.lt_irrefl _)
  | cons c rest ih =>
    have hnext : lead ++ c :: rest = (lead ++ [c]) ++ rest := by simp
    have hlast : (lead ++ [c]).getLast? = some c := List.getLast?_concat
    have hsize : (lead ++ [c]).size = lead.size + c.utf8Size := by simp
    have hrec : ∀ {busy}, f ∈ scan extra find busy (some c) (lead.size + c.utf8Size) (rest ++ old) →
        f' ∈ scan extra find busy (some c) (lead.size + c.utf8Size) (rest ++ new) →
        f'.stop.offset ≤ (lead ++ c :: rest).size ∨ f'.start.offset = (lead ++ c :: rest).size ∨
          (lead ++ c :: rest).size + size ≤ f'.start.offset := by
      intro busy h h'
      rw [hnext] at hagree hstart ⊢
      rw [← hlast, ← hsize] at h h'
      exact ih hagree h hstart h'
    cases busy with
    | succ busy => exact hrec hf hf'
    | zero =>
      have hpoint := hagree lead c rest rfl
      rw [List.cons_append, scan] at hf hf'
      simp only [List.cons_append] at hpoint hf hf'
      generalize hg : find lead.getLast? ⟨lead.size, c :: (rest ++ old)⟩ = g at hpoint hf
      generalize hg' : find lead.getLast? ⟨lead.size, c :: (rest ++ new)⟩ = g' at hpoint hf'
      cases hpoint with
      | none => exact hrec hf hf'
      | before us hgstart hgstop hrest hrest' =>
        rcases List.mem_cons.mp hf with rfl | hf
        · exact absurd hstart (Nat.ne_of_lt hgstart)
        rcases List.mem_cons.mp hf' with rfl | hf'
        · exact Or.inl hgstop
        · rw [hrest] at hf
          rw [hrest'] at hf'
          simp only [List.length_append, Nat.add_right_comm _ _ extra, Nat.add_sub_add_right]
            at hf hf'
          exact hrec hf hf'
      | across _ hgstart hgstop =>
        rcases List.mem_cons.mp hf with rfl | hf
        · exact absurd hstart hgstart
        · have := stop_lt_start_of_mem_scan hfind hg hf
          omega
      | beyond _ hgstart hgstop =>
        rcases List.mem_cons.mp hf' with rfl | hf'
        · exact Or.inr hgstart
        · have := stop_lt_start_of_mem_scan hfind hg' hf'
          omega

end

/-! ### Agreement -/

section

variable {n size : Nat} {old new : Text}

theorem Agree.or {r r' q q' : Option Found} (h : Agree n old new size r r')
    (hq : Agree n old new size q q') : Agree n old new size (r.or q) (r'.or q') := by
  cases h with
  | none => exact hq
  | before us h1 h2 h3 h4 => exact .before us h1 h2 h3 h4
  | across _ h1 h2 => exact .across _ h1 h2
  | beyond _ h1 h2 => exact .beyond _ h1 h2

theorem Agree.findSome? {α : Type} {f f' : α → Option Found} (xs : List α)
    (h : ∀ x, Agree n old new size (f x) (f' x)) :
    Agree n old new size (xs.findSome? f) (xs.findSome? f') := by
  induction xs with
  | nil => exact .none
  | cons x xs ih =>
    have hor : ∀ g : α → Option Found, (x :: xs).findSome? g = (g x).or (xs.findSome? g) := by
      intro g
      rw [List.findSome?_cons]
      cases g x <;> rfl
    rw [hor, hor]
    exact (h x).or ih

end

/-! ### Looking at the start of a line and behind characters -/

/-- Looks at a point if a line starts there, and behind its character if that leads to something. -/
def findFrom (leads : Char → Bool) (at? : Cursor → Option Found) (before : Option Char)
    (k : Cursor) :
    Option Found :=
  (if before.all (· == '\n') then at? k else none).or
    (if k.rest.head?.any leads then at? (k.skip 1) else none)

section

variable {leads : Char → Bool} {at? : Cursor → Option Found} {old new : Text} {size : Nat}
  (hat : ∀ (o : Nat) (ws : Text),
    Agree (o + Text.size ws) old new size (at? ⟨o, ws ++ old⟩) (at? ⟨o, ws ++ new⟩))

include hat

theorem agree_findFrom (before : Option Char) (o : Nat) (c : Char) (ws : Text) :
    Agree (o + Text.size (c :: ws)) old new size (findFrom leads at? before ⟨o, c :: ws ++ old⟩)
      (findFrom leads at? before ⟨o, c :: ws ++ new⟩) := by
  refine Agree.or ?_ ?_
  · split_ifs
    · exact hat o (c :: ws)
    · exact .none
  · simp only [List.cons_append, List.head?_cons, Option.any_some, Cursor.skip]
    split_ifs
    · have := hat (o + c.utf8Size) ws
      rwa [Nat.add_assoc, ← Text.size_cons] at this
    · exact .none

/-- **What is found again in place of a value starts where the value does**, if what is found in
front of it does not depend on it. -/
theorem start_eq_of_mem_scan_findFrom (hfind : Finds (findFrom leads at?)) {extra : Nat}
    {lead : Text}
    {f f' : Found} (hf : f ∈ scan extra (findFrom leads at?) 0 none 0 (lead ++ old))
    (hstart : f.start.offset = Text.size lead)
    (hf' : f' ∈ scan extra (findFrom leads at?) 0 none 0 (lead ++ new)) :
    f'.stop.offset ≤ Text.size lead ∨ f'.start.offset = Text.size lead ∨
      Text.size lead + size ≤ f'.start.offset := by
  have hagree : ∀ (us : Text) (c : Char) (ws : Text), [] ++ lead = us ++ c :: ws →
      Agree (Text.size ([] ++ lead)) old new size
        (findFrom leads at? us.getLast? ⟨us.size, c :: ws ++ old⟩)
        (findFrom leads at? us.getLast? ⟨us.size, c :: ws ++ new⟩) := by
    intro us c ws hsplit
    rw [hsplit, Text.size_append]
    exact agree_findFrom hat _ _ c ws
  exact start_eq_of_mem_scan hfind hagree hf hstart hf'

end

end DesignLint.Style
