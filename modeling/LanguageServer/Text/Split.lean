/-! Lists of characters cut at separators. -/
namespace LanguageServer.Text

/-- The parts of a list between the characters that satisfy `p`. -/
def splitAt (p : Char → Bool) (cs : List Char) : List (List Char) :=
  cs.foldr (fun c parts => if p c then [] :: parts else
    match parts with
    | [] => [[c]]
    | part :: rest => (c :: part) :: rest) [[]]

/-- The parts of a list between separators. -/
def split (separator : Char) (cs : List Char) : List (List Char) := splitAt (· = separator) cs

/-- What stands before the first separator and what stands after it. -/
def cut (separator : Char) (cs : List Char) : List Char × List Char :=
  (cs.takeWhile (· ≠ separator), (cs.dropWhile (· ≠ separator)).drop 1)

theorem splitAt_nil (p : Char → Bool) : splitAt p [] = [[]] := rfl

theorem splitAt_ne_nil (p : Char → Bool) (cs : List Char) : splitAt p cs ≠ [] := by
  cases cs with
  | nil => simp [splitAt]
  | cons c rest =>
    simp only [splitAt, List.foldr_cons]
    split
    · simp
    · split <;> simp

/-- A text without separators is one part. -/
theorem splitAt_of_forall {p : Char → Bool} {cs : List Char} (h : ∀ c ∈ cs, p c = false) :
    splitAt p cs = [cs] := by
  induction cs with
  | nil => rfl
  | cons c rest ih =>
    have hc := h c (by simp)
    have hr := ih fun d hd => h d (by simp [hd])
    simp only [splitAt, List.foldr_cons, hc] at hr ⊢
    rw [hr]
    simp

end LanguageServer.Text
