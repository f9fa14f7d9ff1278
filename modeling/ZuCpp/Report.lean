import ZuCpp.Error

/-!
# `Error::report`: the caret under the column

The column of a position counts characters and the excerpt is bytes, so `report` walks the
excerpt: a byte, then the continuation bytes behind it, until it has come to the column or
to the end.  Both loops are here with the bounds they check, and reading past the end of
the excerpt is `none`.

`caret_under_column` is what comes out: the caret stands below the character, or below the
end of an excerpt that is shorter.
-/

namespace ZuCpp

def utf8 (cs : List Char) : Str := cs.flatMap String.utf8EncodeChar

namespace Error

def isContinuation (c : UInt8) : Bool := c &&& 0xC0 == 0x80

/-- The inner `while`: the first byte from `bytes` on that is no continuation. -/
def skip (excerpt : Str) (bytes : Nat) : Option Nat :=
  if bytes < excerpt.length then
    match excerpt[bytes]? with
    | none => none
    | some c => if isContinuation c then skip excerpt (bytes + 1) else some bytes
  else some bytes
termination_by excerpt.length - bytes

theorem skip_eq (excerpt : Str) (bytes : Nat) :
    skip excerpt bytes = some (bytes + ((excerpt.drop bytes).takeWhile isContinuation).length) := by
  fun_induction skip excerpt bytes with
  | case1 bytes hlt hnone =>
    rw [List.getElem?_eq_none_iff] at hnone
    omega
  | case2 bytes hlt c hc hcont ih =>
    obtain ⟨h, hget⟩ := List.getElem?_eq_some_iff.mp hc
    rw [ih, List.drop_eq_getElem_cons h, hget, List.takeWhile_cons_of_pos hcont, List.length_cons]
    congr 1
    omega
  | case3 bytes hlt c hc hcont =>
    obtain ⟨h, hget⟩ := List.getElem?_eq_some_iff.mp hc
    rw [List.drop_eq_getElem_cons h, hget, List.takeWhile_cons_of_neg hcont]
    rfl
  | case4 bytes hge =>
    rw [List.drop_eq_nil_of_le (by omega)]
    rfl

/-- The outer `while`, from `bytes` and `chars` on: the number of the character it stops
at. -/
def walk (excerpt : Str) (column : UInt32) (bytes : Nat) (chars : UInt32) : Option UInt32 :=
  if bytes < excerpt.length ∧ chars < column then
    match h : skip excerpt (bytes + 1) with
    | none => none
    | some bytes' => walk excerpt column bytes' (chars + 1)
  else some chars
termination_by excerpt.length - bytes
decreasing_by
  rename_i hlt
  rw [skip_eq, Option.some.injEq] at h
  omega

def report (self : Error) : Option Str :=
  match self.excerpt, self.position with
  | some excerpt, some position => do
    let out := self.message ++ ascii "\n" ++ excerpt ++ ascii "\n"
    let chars ← walk excerpt position.column 0 1
    let out := out ++ List.replicate (if chars > 1 then chars - 1 else 0).toNat ' '.toUInt8
    return out ++ ascii "^"
  | _, _ => some self.message

/-! ### The walk -/

theorem walk_isSome (excerpt : Str) (column : UInt32) (bytes : Nat) (chars : UInt32) :
    (walk excerpt column bytes chars).isSome = true := by
  fun_induction walk excerpt column bytes chars with
  | case1 bytes chars hlt hnone =>
    rw [skip_eq] at hnone
    cases hnone
  | case2 bytes chars hlt bytes' h ih => exact ih
  | case3 bytes chars hge => rfl

theorem isContinuation_tail (n : Nat) : isContinuation (UInt8.ofNat (n % 0x40 + 0x80)) = true := by
  have h : ∀ k < 0x40, isContinuation (UInt8.ofNat (k + 0x80)) = true := by decide
  exact h _ (Nat.mod_lt n (by decide))

/-- The first byte of a character is no continuation, and the others are. -/
theorem utf8EncodeChar_cons (c : Char) : ∃ b tail, String.utf8EncodeChar c = b :: tail ∧
    isContinuation b = false ∧ ∀ t ∈ tail, isContinuation t = true := by
  have h1 : ∀ k < 0x80, isContinuation (UInt8.ofNat k) = false := by decide
  have h2 : ∀ k < 0x20, isContinuation (UInt8.ofNat (k + 0xc0)) = false := by decide
  have h3 : ∀ k < 0x10, isContinuation (UInt8.ofNat (k + 0xe0)) = false := by decide
  have h4 : ∀ k < 0x08, isContinuation (UInt8.ofNat (k + 0xf0)) = false := by decide
  rw [String.utf8EncodeChar]
  split_ifs with hone htwo hthree
  · exact ⟨_, _, rfl, h1 _ (by omega), nofun⟩
  · refine ⟨_, _, rfl, h2 _ (Nat.mod_lt _ (by decide)), ?_⟩
    simp only [List.forall_mem_cons]
    exact ⟨isContinuation_tail _, nofun⟩
  · refine ⟨_, _, rfl, h3 _ (Nat.mod_lt _ (by decide)), ?_⟩
    simp only [List.forall_mem_cons]
    exact ⟨isContinuation_tail _, isContinuation_tail _, nofun⟩
  · refine ⟨_, _, rfl, h4 _ (Nat.mod_lt _ (by decide)), ?_⟩
    simp only [List.forall_mem_cons]
    exact ⟨isContinuation_tail _, isContinuation_tail _, isContinuation_tail _, nofun⟩

theorem utf8_cons (c : Char) (cs : List Char) :
    utf8 (c :: cs) = String.utf8EncodeChar c ++ utf8 cs :=
  rfl

theorem utf8_append (cs ds : List Char) : utf8 (cs ++ ds) = utf8 cs ++ utf8 ds :=
  List.flatMap_append

theorem takeWhile_utf8 (cs : List Char) : (utf8 cs).takeWhile isContinuation = [] := by
  cases cs with
  | nil => rfl
  | cons c cs =>
    obtain ⟨b, tail, hc, hb, -⟩ := utf8EncodeChar_cons c
    rw [utf8_cons, hc, List.cons_append, List.takeWhile_cons_of_neg (by rw [hb]; decide)]

/-- One turn of the walk at the start of a character passes that character. -/
theorem skip_char (pre : List Char) (c : Char) (cs : List Char) :
    skip (utf8 (pre ++ c :: cs)) ((utf8 pre).length + 1) = some (utf8 (pre ++ [c])).length := by
  obtain ⟨b, tail, hc, -, htail⟩ := utf8EncodeChar_cons c
  have hdrop : (utf8 (pre ++ c :: cs)).drop ((utf8 pre).length + 1) = tail ++ utf8 cs := by
    rw [utf8_append, utf8_cons, hc, ← List.drop_drop, List.drop_left]
    rfl
  have hwhile : (tail ++ utf8 cs).takeWhile isContinuation = tail := by
    rw [List.takeWhile_append_of_pos htail, takeWhile_utf8, List.append_nil]
  rw [skip_eq, hdrop, hwhile, utf8_append, List.length_append, utf8_cons, hc]
  simp only [List.length_append, List.length_cons, utf8, List.flatMap_nil, List.length_nil]
  congr 1
  omega

/-- **The walk counts characters**, up to the column. -/
theorem walk_utf8 (column : UInt32) : ∀ (cs pre : List Char) (chars : UInt32),
    ∃ r, walk (utf8 (pre ++ cs)) column (utf8 pre).length chars = some r ∧
      r.toNat = min (max column.toNat chars.toNat) (chars.toNat + cs.length) := by
  intro cs
  induction cs with
  | nil =>
    intro pre chars
    refine ⟨chars, ?_, by rw [List.length_nil]; omega⟩
    rw [walk, List.append_nil, if_neg (fun h => Nat.lt_irrefl _ h.1)]
  | cons c cs ih =>
    intro pre chars
    have hlt : (utf8 pre).length < (utf8 (pre ++ c :: cs)).length := by
      obtain ⟨b, tail, hc, -, -⟩ := utf8EncodeChar_cons c
      rw [utf8_append, utf8_cons, hc, List.length_append, List.cons_append, List.length_cons]
      omega
    by_cases hcol : chars < column
    · have hnat := UInt32.lt_iff_toNat_lt.mp hcol
      have hbound := column.toNat_lt
      obtain ⟨r, hr, hval⟩ := ih (pre ++ [c]) (chars + 1)
      have hnext : (chars + 1).toNat = chars.toNat + 1 := by
        rw [UInt32.toNat_add, show (1 : UInt32).toNat = 1 from rfl, Nat.mod_eq_of_lt (by omega)]
      refine ⟨r, ?_, by rw [hval, hnext, List.length_cons]; omega⟩
      rw [List.append_assoc, List.singleton_append] at hr
      rw [walk, if_pos ⟨hlt, hcol⟩]
      split
      · rename_i hnone
        rw [skip_char] at hnone
        cases hnone
      · rename_i bytes' hsome
        rw [skip_char, Option.some.injEq] at hsome
        rw [← hsome]
        exact hr
    · have hnat : ¬ chars.toNat < column.toNat := fun h => hcol (UInt32.lt_iff_toNat_lt.mpr h)
      refine ⟨chars, ?_, by omega⟩
      rw [walk, if_neg fun h => hcol h.2]

/-- **The caret lands under the column.**  The report of an error with an excerpt and a
position is the message, the excerpt and a caret, each on its line, with a blank in front of
the caret for each character in front of the column, or for each character of an excerpt
that ends before; the report of any other error is its message.  The walk never reads past
the end. -/
theorem caret_under_column :
    (∀ e : Error, e.report.isSome = true) ∧
    (∀ e : Error, e.excerpt = none ∨ e.position = none → e.report = some e.message) ∧
    ∀ (e : Error) (cs : List Char) (p : Position), e.excerpt = some (utf8 cs) →
      e.position = some p →
      e.report = some (e.message ++ ascii "\n" ++ utf8 cs ++ ascii "\n"
        ++ List.replicate (min (max p.column.toNat 1 - 1) cs.length) ' '.toUInt8
        ++ ascii "^") := by
  refine ⟨?_, ?_, ?_⟩
  · intro e
    rw [report]
    split
    · rename_i excerpt position _ _
      obtain ⟨r, hr⟩ := Option.isSome_iff_exists.mp (walk_isSome excerpt position.column 0 1)
      rw [hr]
      rfl
    · rfl
  · intro e h
    rw [report]
    split
    · rename_i _ _ hx hp
      rw [hx, hp] at h
      rcases h with h | h <;> cases h
    · rfl
  · intro e cs p hx hp
    obtain ⟨r, hr, hval⟩ := walk_utf8 p.column cs [] 1
    have hone : (1 : UInt32).toNat = 1 := rfl
    have hsub : (if r > 1 then r - 1 else 0).toNat
        = min (max p.column.toNat 1 - 1) cs.length := by
      rw [hone] at hval
      split
      · rename_i h
        rw [UInt32.toNat_sub_of_le r 1 (UInt32.le_of_lt h), hone, hval]
        omega
      · rename_i h
        have hle : ¬ 1 < r.toNat := fun hc => h (UInt32.lt_iff_toNat_lt.mpr hc)
        show 0 = _
        omega
    rw [List.nil_append] at hr
    rw [report, hx, hp]
    show (walk (utf8 cs) p.column 0 1 >>= fun chars => _) = _
    rw [show walk (utf8 cs) p.column 0 1 = some r from hr]
    show some _ = _
    rw [hsub]

theorem caret_under_column_second :
    (report { message := ascii "no", excerpt := some (utf8 ['é', 'x']),
              position := some ⟨1, 2, 0⟩ })
      = some (ascii "no\n" ++ utf8 ['é', 'x'] ++ ascii "\n ^") :=
  caret_under_column.2.2 _ ['é', 'x'] ⟨1, 2, 0⟩ rfl rfl

end Error

end ZuCpp
