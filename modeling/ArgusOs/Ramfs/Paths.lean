/-
  The grammar of paths: what `valid_path` of `rust_ramfs.rs` accepts.

  The scanner walks over the bytes once, with the start of the segment it is in. The grammar
  splits the bytes behind the first slash at every slash and looks at each segment for itself.
-/
import ArgusOs.Ramfs.FileSystem

namespace ArgusOs.Ramfs

def pathByte (byte : UInt8) : Prop := 33 ≤ byte ∧ byte ≤ 126 ∧ byte ≠ backslash

/-- A name between two slashes. -/
structure PathSegment (segment : List UInt8) : Prop where
  nonempty : segment ≠ []
  not_here : segment ≠ [dot]
  not_parent : segment ≠ [dot, dot]
  bytes : ∀ byte ∈ segment, pathByte byte

/-! ## Splitting -/

theorem splitOn_of_not_mem {α : Type} [DecidableEq α] {a : α} {xs : List α} (h : a ∉ xs) :
    xs.splitOn a = [xs] :=
  List.splitOnP_eq_singleton fun c hc => by
    simp only [beq_eq_false_iff_ne]
    rintro rfl
    exact h hc

/-- What is not a separator stands in one of the pieces. -/
theorem mem_splitOn {α : Type} [DecidableEq α] {a b : α} (hne : b ≠ a) (xs : List α) (hb : b ∈ xs) :
    ∃ piece ∈ xs.splitOn a, b ∈ piece := by
  induction xs with
  | nil => exact absurd hb List.not_mem_nil
  | cons x xs ih =>
    by_cases hx : x = a
    · -- a separator in front adds an empty piece
      subst hx
      obtain ⟨piece, hpiece, hmem⟩ := ih ((List.mem_cons.mp hb).resolve_left hne)
      refine ⟨piece, ?_, hmem⟩
      rw [show x :: xs = [] ++ x :: xs from rfl, List.splitOn_append_cons_self]
      exact List.mem_append_right _ hpiece
    · have hsplit : (x :: xs).splitOn a = (xs.splitOn a).modifyHead (x :: ·) := by
        unfold List.splitOn
        rw [List.splitOnP_cons_eq_if_modifyHead, if_neg (by simpa using hx)]
      obtain ⟨first, others, hfirst⟩ :=
        List.exists_cons_of_ne_nil (List.splitOnP_ne_nil (· == a) xs)
      rw [hsplit, show xs.splitOn a = first :: others from hfirst, List.modifyHead_cons]
      rcases List.mem_cons.mp hb with rfl | hb
      · exact ⟨b :: first, List.mem_cons_self, List.mem_cons_self⟩
      · obtain ⟨piece, hpiece, hmem⟩ := ih hb
        rw [show xs.splitOn a = first :: others from hfirst] at hpiece
        rcases List.mem_cons.mp hpiece with rfl | hpiece
        · exact ⟨x :: piece, List.mem_cons_self, List.mem_cons_of_mem x hmem⟩
        · exact ⟨piece, List.mem_cons_of_mem _ hpiece, hmem⟩

/-! ## The scanner -/

section Scanner
variable {front segment rest : List UInt8}

theorem inputAt_append_right (k : Nat) :
    inputAt (front ++ rest) (front.length + k) = inputAt rest k := by
  unfold inputAt
  rw [List.getD_append_right _ _ _ _ (Nat.le_add_right _ _), Nat.add_sub_cancel_left]

/-- What the scanner asks at the end of a segment. -/
theorem segment_refused :
    (front.length + segment.length - front.length = 0 ∨
      (front.length + segment.length - front.length = 1 ∧
        inputAt (front ++ (segment ++ rest)) front.length = dot) ∨
      (front.length + segment.length - front.length = 2 ∧
        inputAt (front ++ (segment ++ rest)) front.length = dot ∧
        inputAt (front ++ (segment ++ rest)) (front.length + 1) = dot)) ↔
      segment = [] ∨ segment = [dot] ∨ segment = [dot, dot] := by
  have hstart : inputAt (front ++ (segment ++ rest)) front.length = inputAt (segment ++ rest) 0 :=
    inputAt_append_right 0
  rw [Nat.add_sub_cancel_left, hstart, inputAt_append_right]
  match segment with
  | [] => simp
  | [a] => simp [inputAt]
  | [a, b] => simp [inputAt]
  | a :: b :: c :: more => simp

theorem pathSegment_iff (hbytes : ∀ byte ∈ segment, pathByte byte) :
    PathSegment segment ↔ ¬ (segment = [] ∨ segment = [dot] ∨ segment = [dot, dot]) := by
  rw [not_or, not_or]
  exact ⟨fun h => ⟨h.nonempty, h.not_here, h.not_parent⟩,
    fun ⟨h1, h2, h3⟩ => ⟨h1, h2, h3, hbytes⟩⟩

theorem refuse_or_go {bad : Prop} [Decidable bad] {go : Bool} :
    (if bad then false else go) = true ↔ ¬ bad ∧ go = true := by
  split <;> simp [*]

/-- The scanner inside a segment: what it has read of the segment is in order, and the rest is
    split as the grammar splits it. -/
theorem validPathLoop_iff (hslash : slash ∉ segment) (hbytes : ∀ byte ∈ segment, pathByte byte) :
    validPathLoop (front ++ (segment ++ rest)) (rest.length + 1) (front.length + segment.length)
        front.length = true ↔
      ∀ piece ∈ (segment ++ rest).splitOn slash, PathSegment piece := by
  induction rest generalizing front segment with
  | nil =>
    have hend : front.length + segment.length = (front ++ (segment ++ [])).length := by simp
    unfold validPathLoop
    dsimp only
    rw [if_pos (Or.inl hend), refuse_or_go, segment_refused, List.append_nil,
      splitOn_of_not_mem hslash, List.forall_mem_singleton, pathSegment_iff hbytes]
    exact and_iff_left rfl
  | cons byte rest ih =>
    have hat : inputAt (front ++ (segment ++ byte :: rest)) (front.length + segment.length) =
      byte := by
      rw [inputAt_append_right]
      exact inputAt_append_right 0
    unfold validPathLoop
    dsimp only
    rw [hat]
    by_cases hboundary : byte = slash
    · -- the segment is closed, and the next one begins behind the slash
      subst hboundary
      have hnext := @ih (front ++ (segment ++ [slash])) [] List.not_mem_nil (by simp)
      have hpath : front ++ (segment ++ [slash]) ++ ([] ++ rest) =
        front ++ (segment ++ slash :: rest) := by
        simp
      have hindex : (front ++ (segment ++ [slash])).length = front.length + segment.length + 1 := by
        simp [Nat.add_assoc]
      rw [hpath, hindex, List.length_nil, Nat.add_zero, List.nil_append] at hnext
      rw [if_pos (Or.inr rfl), refuse_or_go, segment_refused, List.length_cons, hnext,
        List.splitOn_append_cons_self, splitOn_of_not_mem hslash, List.singleton_append,
        List.forall_mem_cons, pathSegment_iff hbytes]
    · have hnext := @ih front (segment ++ [byte]) (by simp [hslash, Ne.symm hboundary])
      have hpath : segment ++ [byte] ++ rest = segment ++ byte :: rest := by simp
      rw [hpath, List.length_append, List.length_singleton, ← Nat.add_assoc] at hnext
      have hgood : ¬ (¬ (33 ≤ byte ∧ byte ≤ 126) ∨ byte = backslash) ↔ pathByte byte := by
        rw [not_or, not_not, and_assoc]
        rfl
      rw [if_neg (by simp [hboundary]), refuse_or_go, hgood, List.length_cons]
      constructor
      · rintro ⟨hbyte, hgo⟩
        exact (hnext (by simpa [or_imp, forall_and] using ⟨hbytes, hbyte⟩)).mp hgo
      · intro hall
        obtain ⟨piece, hpiece, hmem⟩ := mem_splitOn hboundary (segment ++ byte :: rest) (by simp)
        have hbyte := (hall piece hpiece).bytes byte hmem
        exact ⟨hbyte, (hnext (by simpa [or_imp, forall_and] using ⟨hbytes, hbyte⟩)).mpr hall⟩

end Scanner

/-- Names that are in order do not end in a slash, and there is one. -/
theorem names_end {rest : List UInt8} (h : ∀ segment ∈ rest.splitOn slash, PathSegment segment) :
    rest ≠ [] ∧ rest.getLast? ≠ some slash := by
  constructor
  · rintro rfl
    exact (h [] (by simp)).nonempty rfl
  · intro hlast
    obtain ⟨names, rfl⟩ := List.getLast?_eq_some_iff.mp hlast
    refine (h [] ?_).nonempty rfl
    rw [List.splitOn_append_cons_self]
    simp

/-- `valid_path` accepts a byte string just if it is a slash and names separated by slashes. -/
theorem validPath_grammar (path : List UInt8) :
    validPath path = true ↔
      ∃ rest, path = slash :: rest ∧ ∀ segment ∈ rest.splitOn slash, PathSegment segment := by
  have hscan := fun rest : List UInt8 =>
    @validPathLoop_iff [slash] [] rest List.not_mem_nil (by simp)
  unfold validPath
  rw [refuse_or_go, not_or, not_or, not_not]
  constructor
  · rintro ⟨⟨-, hhead, -⟩, hloop⟩
    cases path with
    | nil => exact absurd hhead (by decide)
    | cons byte rest =>
      obtain rfl : byte = slash := hhead
      exact ⟨rest, rfl, (hscan rest).mp hloop⟩
  · rintro ⟨rest, rfl, hall⟩
    obtain ⟨hrest, hlast⟩ := names_end hall
    refine ⟨⟨?_, rfl, ?_⟩, (hscan rest).mpr hall⟩
    · have := List.length_pos_iff.mpr hrest
      rw [List.length_cons]
      omega
    · obtain ⟨names, byte, rfl⟩ := (List.eq_nil_or_concat rest).resolve_left hrest
      simpa [inputAt] using hlast

end ArgusOs.Ramfs
