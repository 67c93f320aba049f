import LiveHls.Timestamp
/-! The characters of numbers, times and names. They are letters, digits and a few signs, none of
which ends a line, an attribute or a quoted value. -/
namespace LiveHls

/-- A character that stands for itself in every place of a line. -/
def plain? (c : Char) : Bool := c.isAlphanum || ['.', '-', '+', ':', '/', '@'].contains c

def PlainText (cs : List Char) : Prop := ∀ c ∈ cs, plain? c = true

instance (cs : List Char) : Decidable (PlainText cs) :=
  decidable_of_iff (cs.all plain? = true) List.all_eq_true

theorem PlainText.append {cs ds : List Char} (hc : PlainText cs) (hd : PlainText ds) :
    PlainText (cs ++ ds) := by
  intro c member
  rcases List.mem_append.mp member with left | right
  · exact hc c left
  · exact hd c right

theorem PlainText.cons {c : Char} {cs : List Char} (first : plain? c = true)
    (rest : PlainText cs) : PlainText (c :: cs) := by
  intro d member
  rcases List.mem_cons.mp member with rfl | later
  · exact first
  · exact rest d later

theorem PlainText.sublist {cs ds : List Char} (h : PlainText ds) (part : cs.Sublist ds) :
    PlainText cs := fun c member => h c (part.subset member)

theorem PlainText.not_mem {cs : List Char} (h : PlainText cs) {c : Char}
    (other : plain? c = false) : c ∉ cs := by
  intro member
  rw [h c member] at other
  cases other

theorem plainText_digits (n : Nat) : PlainText (Nat.toDigits 10 n) := by
  intro c member
  have digit := Nat.isDigit_of_mem_toDigits (by omega) (by omega) member
  simp [plain?, Char.isAlphanum, digit]

namespace Decimal

theorem plainText_zeros (n : Nat) : PlainText (zeros n) := by
  intro c member
  rw [List.eq_of_mem_replicate member]
  rfl

theorem plainText_significant (n : Nat) : PlainText (significant n) := by
  refine fun c member => plainText_digits n c ?_
  exact List.mem_reverse.mp (List.dropWhile_sublist _ |>.subset (List.mem_reverse.mp member))

theorem plainText_layout {digits : List Char} (h : PlainText digits) (point : Int) :
    PlainText (layout digits point) := by
  have mark : ∀ e : Int, PlainText ('e' :: (if e < 0 then '-' else '+') :: Nat.toDigits 10 e.natAbs) := by
    intro e
    refine .cons rfl (.cons ?_ (plainText_digits _))
    split <;> rfl
  unfold layout
  simp only
  split
  · exact h.append (plainText_zeros _)
  · split
    · exact (h.sublist (List.take_sublist _ _)).append (.cons rfl (h.sublist (List.drop_sublist _ _)))
    · split
      · exact (PlainText.cons rfl (.cons rfl (plainText_zeros _))).append h
      · have last := mark (point - 1)
        split
        · exact last
        · exact h.append last
        · rename_i d rest more plain
          have tail := h.sublist (List.sublist_cons_self d rest)
          exact (PlainText.cons (h d List.mem_cons_self) (.cons rfl tail)).append last

theorem plainText_signed {cs : List Char} (h : PlainText cs) (negative : Bool) :
    PlainText (if negative then '-' :: cs else cs) := by
  split
  · exact .cons rfl h
  · exact h

theorem plainText_text (x : Float) : PlainText (text x).toList := by
  unfold text
  split
  · decide
  · split <;> decide
  · decide
  · rw [String.toList_ofList]
    exact plainText_signed (plainText_layout (plainText_significant _) _) _

theorem plainText_placed (places units : Nat) : PlainText (placed places units) := by
  unfold placed
  simp only
  split
  · exact plainText_digits _
  · exact ((plainText_digits _).append (.cons rfl (plainText_zeros _))).append (plainText_digits _)

theorem plainText_fixed (places : Nat) (x : Float) : PlainText (fixed places x).toList := by
  unfold fixed
  split
  · rw [String.toList_ofList]
    exact plainText_placed places 0
  · simp only
    split
    · exact plainText_text x
    · rw [String.toList_ofList]
      exact plainText_signed (plainText_placed _ _) _
  · exact plainText_text x

end Decimal

namespace Timestamp

theorem plainText_padded (width n : Nat) : PlainText (padded width n) :=
  (Decimal.plainText_zeros _).append (plainText_digits n)

theorem plainText_yearText (year : Int) : PlainText (yearText year) := by
  unfold yearText
  split
  · exact plainText_padded _ _
  · refine .cons ?_ (plainText_padded _ _)
    split <;> rfl

theorem plainText_text? {time : Timestamp} {text : String} (written : time.text? = some text) :
    PlainText text.toList := by
  cases time with
  | invalid => cases written
  | «at» millis =>
      cases written
      have field : ∀ sign, plain? sign = true → ∀ width n, PlainText (sign :: padded width n) :=
        fun sign plain width n => .cons plain (plainText_padded width n)
      rw [String.toList_ofList]
      refine PlainText.append ?_ (by decide)
      refine PlainText.append ?_ (field '.' rfl 3 _)
      refine PlainText.append ?_ (field ':' rfl 2 _)
      refine PlainText.append ?_ (field ':' rfl 2 _)
      refine PlainText.append ?_ (field 'T' rfl 2 _)
      refine PlainText.append ?_ (field '-' rfl 2 _)
      exact (plainText_yearText _).append (field '-' rfl 2 _)

end Timestamp

end LiveHls
