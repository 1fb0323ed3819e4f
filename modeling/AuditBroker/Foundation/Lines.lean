import AuditBroker.Foundation.Text

/-!
# Newline-terminated lines

A log file is a sequence of lines, each ended by a newline, and possibly a last fragment without
one.  `splitLines` scans a file into its lines and its fragment, `joinLines` is the file of a list of
lines.
-/

namespace Foundation

/-- The newline character. -/
abbrev newline : UInt8 := 10

/-- The complete lines of a file and the fragment after the last newline. -/
def splitLines : Bytes → List Bytes × Bytes
  | [] => ([], [])
  | c :: rest =>
    let r := splitLines rest
    if c = newline then ([] :: r.1, r.2)
    else
      match r.1 with
      | [] => ([], c :: r.2)
      | l :: ls => ((c :: l) :: ls, r.2)

/-- The file that has exactly these lines. -/
def joinLines (ls : List Bytes) : Bytes := ls.flatMap fun l => l ++ [newline]

@[simp] theorem joinLines_nil : joinLines [] = [] := rfl

@[simp] theorem joinLines_append (as bs : List Bytes) :
    joinLines (as ++ bs) = joinLines as ++ joinLines bs := by
  simp [joinLines]

theorem joinLines_singleton (l : Bytes) : joinLines [l] = l ++ [newline] := by
  simp [joinLines]

/-- A fragment has no lines. -/
theorem splitLines_fragment {t : Bytes} (h : newline ∉ t) : splitLines t = ([], t) := by
  induction t with
  | nil => rfl
  | cons c t ih =>
    simp only [List.mem_cons, not_or] at h
    rw [splitLines, ih h.2]
    simp [Ne.symm h.1]

/-- A line in front of a file. -/
theorem splitLines_line_append {l rest : Bytes} (h : newline ∉ l) :
    splitLines (l ++ newline :: rest) = (l :: (splitLines rest).1, (splitLines rest).2) := by
  induction l with
  | nil => simp [splitLines]
  | cons c l ih =>
    simp only [List.mem_cons, not_or] at h
    rw [List.cons_append, splitLines, ih h.2]
    simp [Ne.symm h.1]

/-- Scanning a file of lines and a fragment gives back the lines and the fragment. -/
theorem splitLines_joinLines {ls : List Bytes} {t : Bytes} (hl : ∀ l ∈ ls, newline ∉ l)
    (ht : newline ∉ t) : splitLines (joinLines ls ++ t) = (ls, t) := by
  induction ls with
  | nil => exact splitLines_fragment ht
  | cons l ls ih =>
    have hrest := ih fun x hx => hl x (by simp [hx])
    have hcat : joinLines (l :: ls) ++ t = l ++ newline :: (joinLines ls ++ t) := by
      simp [joinLines]
    rw [hcat, splitLines_line_append (hl l (by simp)), hrest]

/-- Every file is its lines and its fragment. -/
theorem joinLines_splitLines (b : Bytes) :
    joinLines (splitLines b).1 ++ (splitLines b).2 = b ∧ newline ∉ (splitLines b).2 := by
  induction b with
  | nil => exact ⟨rfl, by simp [splitLines]⟩
  | cons c b ih =>
    rw [splitLines]
    by_cases hc : c = newline
    · subst hc
      simp only [if_true]
      exact ⟨by simpa [joinLines] using ih.1, ih.2⟩
    · simp only [if_neg hc]
      rcases hs : (splitLines b).1 with _ | ⟨l, ls⟩
      · rw [hs] at ih
        exact ⟨by simpa using ih.1, by simpa [Ne.symm hc] using ih.2⟩
      · rw [hs] at ih
        exact ⟨by simpa [joinLines] using ih.1, ih.2⟩

theorem length_le_length_joinLines (ls : List Bytes) : ls.length ≤ (joinLines ls).length := by
  induction ls with
  | nil => simp
  | cons l ls ih =>
    rw [show l :: ls = [l] ++ ls from rfl, joinLines_append, joinLines_singleton]
    simp only [List.length_append, List.length_cons, List.length_nil]
    omega

/-- There are no more lines than bytes. -/
theorem length_splitLines_le (b : Bytes) : (splitLines b).1.length ≤ b.length := by
  have hjoin := congrArg List.length (joinLines_splitLines b).1
  have hle := length_le_length_joinLines (splitLines b).1
  rw [List.length_append] at hjoin
  omega

/-- A file without its fragment is its lines. -/
theorem take_sub_splitLines (b : Bytes) :
    b.take (b.length - (splitLines b).2.length) = joinLines (splitLines b).1 := by
  have h := (joinLines_splitLines b).1
  have hlen := congrArg List.length h
  rw [List.length_append] at hlen
  rw [← hlen, Nat.add_sub_cancel]
  calc b.take (joinLines (splitLines b).1).length
      = (joinLines (splitLines b).1 ++ (splitLines b).2).take (joinLines (splitLines b).1).length :=
        by rw [h]
    _ = joinLines (splitLines b).1 := List.take_left

theorem newline_notMem_of_mem_splitLines {b l : Bytes} (h : l ∈ (splitLines b).1) :
    newline ∉ l := by
  induction b generalizing l with
  | nil => simp [splitLines] at h
  | cons c b ih =>
    rw [splitLines] at h
    by_cases hc : c = newline
    · simp only [if_pos hc, List.mem_cons] at h
      rcases h with rfl | h
      · simp
      · exact ih h
    · simp only [if_neg hc] at h
      rcases hs : (splitLines b).1 with _ | ⟨l', ls⟩
      · simp [hs] at h
      · simp only [hs, List.mem_cons] at h
        rw [hs] at ih
        rcases h with rfl | h
        · simpa [Ne.symm hc] using ih (List.mem_cons_self ..)
        · exact ih (List.mem_cons_of_mem _ h)

/-- Scanning the lines of a file gives them back. -/
theorem splitLines_joinLines_splitLines (b : Bytes) :
    splitLines (joinLines (splitLines b).1) = ((splitLines b).1, []) := by
  rw [← List.append_nil (joinLines _)]
  exact splitLines_joinLines (fun l hl => newline_notMem_of_mem_splitLines hl) (by simp)

/-- A fragment behind a file makes no line. -/
theorem splitLines_append_fragment (b : Bytes) {t : Bytes} (h : newline ∉ t) :
    splitLines (b ++ t) = ((splitLines b).1, (splitLines b).2 ++ t) := by
  obtain ⟨hb, ht⟩ := joinLines_splitLines b
  conv_lhs => rw [← hb, List.append_assoc]
  exact splitLines_joinLines (fun l hl => newline_notMem_of_mem_splitLines hl) (by simp [h, ht])

/-- A line behind a file without a fragment. -/
theorem splitLines_append_line {b l : Bytes} (hb : (splitLines b).2 = []) (h : newline ∉ l) :
    splitLines (b ++ (l ++ [newline])) = ((splitLines b).1 ++ [l], []) := by
  have hjoin := (joinLines_splitLines b).1
  rw [hb, List.append_nil] at hjoin
  have hcat : b ++ (l ++ [newline]) = joinLines ((splitLines b).1 ++ [l]) ++ [] := by
    rw [joinLines_append, hjoin, joinLines_singleton, List.append_nil]
  rw [hcat]
  refine splitLines_joinLines (fun x hx => ?_) (by simp)
  rcases List.mem_append.mp hx with hx | hx
  · exact newline_notMem_of_mem_splitLines hx
  · rw [List.mem_singleton.mp hx]
    exact h

/-- Empty, or ending in a newline. -/
def Whole (b : Bytes) : Prop := b = [] ∨ b.getLast? = some newline

theorem whole_joinLines (ls : List Bytes) : Whole (joinLines ls) := by
  rcases List.eq_nil_or_concat' ls with rfl | ⟨ls, l, rfl⟩
  · exact .inl rfl
  · rw [joinLines_append, joinLines_singleton, ← List.append_assoc]
    exact .inr List.getLast?_concat

/-- The complete lines of a file are its longest start that is whole. -/
theorem isPrefix_joinLines_splitLines {b q : Bytes} (hq : q <+: b) (hw : Whole q) :
    q <+: joinLines (splitLines b).1 := by
  obtain ⟨hb, htail⟩ := joinLines_splitLines b
  have hlines : joinLines (splitLines b).1 <+: b := ⟨_, hb⟩
  rcases List.prefix_or_prefix_of_prefix hq hlines with h | ⟨x, rfl⟩
  · exact h
  -- otherwise `q` ends inside the fragment, where there is no newline
  have hx : x <+: (splitLines b).2 := by
    obtain ⟨r, hr⟩ := hq
    rw [List.append_assoc] at hr
    exact ⟨r, List.append_cancel_left (hr.trans hb.symm)⟩
  rcases List.eq_nil_or_concat' x with rfl | ⟨y, c, rfl⟩
  · rw [List.append_nil]
  · rw [← List.append_assoc] at hw
    rcases hw with hw | hw
    · simp at hw
    · rw [List.getLast?_concat, Option.some_inj] at hw
      exact absurd (hx.subset (by simp [hw])) htail

end Foundation
