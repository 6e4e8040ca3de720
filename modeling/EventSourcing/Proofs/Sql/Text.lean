import EventSourcing.Proofs.Sql.Reader

/-!
# SQL — texts with placeholders

A database is sent one text and the values that are bound to it.  It knows nothing of fragments: it finds
the placeholders in the text, and each stands for the value of its number.

* `placeholders`: the numbers that a text refers to, in the order in which it does.
* `tokensIn`: the words of a text, with the bound values in the place of their placeholders.
* `Spelled`: fragments that do not run into one another, and of which no fixed one has a dollar sign.
* `placeholders_text`: **the placeholders of a spelled text are those of its values, each once and in
  order.**
* `tokensIn_text`: **each placeholder stands where its value was bound.**
-/

namespace EventSourcing

namespace Sql

/-! ### What is found in a text -/

/-- What follows each dollar sign of a text, as far as there are digits. -/
def placeholders : List Char → List String
  | [] => []
  | c :: cs =>
    if c = '$' then String.ofList (cs.takeWhile Char.isDigit) :: placeholders cs
    else placeholders cs

/-- The number of a word that is a placeholder. -/
def number? (w : String) : Option Nat :=
  match w.toList with
  | '$' :: digits => if digits.all Char.isDigit then some (Nat.ofDigitChars 10 digits 0) else none
  | _ => none

/-- The value that a word stands for.  Placeholders count the values from `1`. -/
def boundTo? (values : List SqlValue) (w : String) : Option SqlValue :=
  match number? w with
  | some (k + 1) => values[k]?
  | _ => none

/-- The token that a word is where these values are bound. -/
def Token.ofWordIn (values : List SqlValue) (w : String) : Token :=
  (boundTo? values w).elim (Token.ofWord w) Token.bound

/-- The tokens of a text to which these values are bound. -/
def tokensIn (values : List SqlValue) (text : String) : List Token :=
  (wordsFrom [] text.toList).map (Token.ofWordIn values)

/-! ### Words -/

@[simp] theorem tokens_nil : tokens [] = [] := rfl

@[simp] theorem tokens_bound (v : SqlValue) (fs : List Fragment) :
    tokens (.bound v :: fs) = .bound v :: tokens fs := rfl

theorem tokens_fixed (s : String) (fs : List Fragment) :
    tokens (.fixed s :: fs) = wordsOf s ++ tokens fs := rfl

@[simp] theorem tokens_append (fs gs : List Fragment) :
    tokens (fs ++ gs) = tokens fs ++ tokens gs :=
  List.flatMap_append

/-- Whether a character ends the word before it. -/
def endsWord (c : Char) : Bool :=
  c ∈ [' ', '(', ')', ',']

/-- Characters that neither end a word nor are one stay in it. -/
theorem wordsFrom_append {word cs rest : List Char} (h : ∀ c ∈ cs, c ∉ [' ', '(', ')', ',']) :
    wordsFrom word (cs ++ rest) = wordsFrom (word ++ cs) rest := by
  induction cs generalizing word with
  | nil => rw [List.nil_append, List.append_nil]
  | cons c cs ih =>
      obtain ⟨hc, hcs⟩ := List.forall_mem_cons.mp h
      have hspace : c ≠ ' ' := fun e => hc (e ▸ List.mem_cons_self)
      rw [List.cons_append, wordsFrom, if_neg hspace,
        if_neg fun hm => hc (List.mem_cons_of_mem _ hm), ih hcs, List.append_assoc,
        List.singleton_append]

/-- What ends a word is read alike whether a word has been begun before it or not. -/
theorem wordsFrom_cons_of_endsWord {c : Char} (h : endsWord c = true) (word cs : List Char) :
    wordsFrom word (c :: cs) = finish word ++ wordsFrom [] (c :: cs) := by
  rw [wordsFrom, wordsFrom]
  split
  · rfl
  · rename_i hspace
    have hmem := (List.mem_cons.mp (of_decide_eq_true h)).resolve_left hspace
    rw [if_pos hmem, if_pos hmem]
    rfl

/-- What ends a word is none of the word after it. -/
theorem wordsFrom_singleton {c : Char} (h : endsWord c = true) (cs : List Char) :
    wordsFrom [] (c :: cs) = wordsFrom [] [c] ++ wordsFrom [] cs := by
  rw [wordsFrom, wordsFrom]
  split
  · rfl
  · rename_i hspace
    have hmem := (List.mem_cons.mp (of_decide_eq_true h)).resolve_left hspace
    rw [if_pos hmem, if_pos hmem]
    rfl

/-- A text that begins with what ends a word is read after another one as by itself. -/
theorem wordsFrom_append_of_head {ds : List Char} (h : ∀ c ∈ ds.head?, endsWord c = true)
    (word cs : List Char) : wordsFrom word (cs ++ ds) = wordsFrom word cs ++ wordsFrom [] ds := by
  induction cs generalizing word with
  | nil =>
      cases ds with
      | nil => exact (List.append_nil _).symm
      | cons c ds => exact wordsFrom_cons_of_endsWord (h c rfl) word ds
  | cons c cs ih =>
      rw [List.cons_append, wordsFrom, wordsFrom, ih, ih]
      split
      · rw [List.append_assoc]
      · split
        · rw [List.append_assoc, List.cons_append]
        · rfl

/-- So is any text after one that ends with what ends a word. -/
theorem wordsFrom_append_of_getLast {cs : List Char} (h : cs.getLast?.any endsWord = true)
    (word ds : List Char) : wordsFrom word (cs ++ ds) = wordsFrom word cs ++ wordsFrom [] ds := by
  obtain ⟨c, hlast, hc⟩ := (Option.any_eq_true _ _).mp h
  obtain ⟨cs, rfl⟩ := List.getLast?_eq_some_iff.mp hlast
  have hhead (rest : List Char) : ∀ d ∈ (c :: rest).head?, endsWord d = true := by
    rintro d ⟨⟩
    exact hc
  rw [List.append_assoc, List.singleton_append, wordsFrom_append_of_head (hhead ds),
    wordsFrom_append_of_head (hhead []), wordsFrom_singleton hc ds, List.append_assoc]

/-- Words have no characters but those of the text. -/
theorem mem_of_mem_wordsFrom {c : Char} {w : String} {cs : List Char} (hc : c ∈ w.toList)
    {word : List Char} (hw : w ∈ wordsFrom word cs) : c ∈ word ++ cs := by
  have hfinish {word : List Char} (hw : w ∈ finish word) : c ∈ word := by
    rw [finish] at hw
    split at hw
    · cases hw
    · obtain rfl := List.mem_singleton.mp hw
      rwa [String.toList_ofList] at hc
  induction cs generalizing word with
  | nil =>
      rw [List.append_nil]
      exact hfinish hw
  | cons d cs ih =>
      have hrest (h : w ∈ wordsFrom [] cs) : c ∈ word ++ d :: cs :=
        List.mem_append_right word (List.mem_cons_of_mem d (ih h))
      rw [wordsFrom] at hw
      split at hw
      · exact (List.mem_append.mp hw).elim (fun h => List.mem_append_left _ (hfinish h)) hrest
      · split at hw
        · rcases List.mem_append.mp hw with h | h
          · exact List.mem_append_left _ (hfinish h)
          · rcases List.mem_cons.mp h with rfl | h
            · obtain rfl : c = d := by simpa using hc
              exact List.mem_append_right word List.mem_cons_self
            · exact hrest h
        · have := ih hw
          rwa [List.append_assoc, List.singleton_append] at this

/-- The text ends with what ends a word. -/
def Closes (s : String) : Prop :=
  s.toList.getLast?.any endsWord = true

/-- The text begins with what ends a word, if it is not empty. -/
def Starts (s : String) : Prop :=
  ∀ c ∈ s.toList.head?, endsWord c = true

theorem closes_append {s t : String} (h : Closes t) : Closes (s ++ t) := by
  obtain ⟨c, hlast, hc⟩ := (Option.any_eq_true _ _).mp h
  rw [Closes, String.toList_append, List.getLast?_append, hlast]
  exact hc

/-- **Texts that do not run into one another** have the words of the one and the words of the other. -/
theorem words_append {s t : String} (h : Closes s ∨ Starts t) :
    wordsFrom [] (s ++ t).toList = wordsFrom [] s.toList ++ wordsFrom [] t.toList := by
  rw [String.toList_append]
  exact h.elim (fun h => wordsFrom_append_of_getLast h _ _) fun h => wordsFrom_append_of_head h _ _

/-- Words are told apart where one text closes or the other starts. -/
theorem wordsOf_append {s t : String} (h : Closes s ∨ Starts t) :
    wordsOf (s ++ t) = wordsOf s ++ wordsOf t := by
  rw [wordsOf, words_append h, List.map_append]
  rfl

/-- The name of a column is read as the column. -/
theorem wordsOf_name (column : Column) : wordsOf column.name = [.column column] := by
  cases column <;> rfl

/-- A list of columns is read as the columns. -/
theorem wordsOf_list (columns : List Column) :
    wordsOf (Column.list columns) = (columns.map Token.column).intersperse (.word ",") := by
  rw [Column.list]
  induction columns with
  | nil => rfl
  | cons column columns ih =>
      cases columns with
      | nil => exact wordsOf_name column
      | cons next columns =>
          have hcomma : Starts ", " := by rintro c ⟨⟩; rfl
          rw [List.map_cons, List.map_cons, String.intercalate_cons_cons,
            wordsOf_append (.inl (closes_append (by rfl))), wordsOf_append (.inr hcomma),
            wordsOf_name]
          exact congrArg (_ ++ ·) ih

/-! ### Placeholders -/

theorem isDigit_of_mem_toString {n : Nat} {c : Char} (h : c ∈ (toString n).toList) :
    c.isDigit = true := by
  rw [Nat.toString_eq_repr, Nat.toList_repr] at h
  exact Nat.isDigit_of_mem_toDigits (by decide) (by decide) h

/-- How the `k`-th value is referred to. -/
theorem number?_placeholder (k : Nat) : number? ("$" ++ toString k) = some k := by
  have hdigits : (toString k).toList.all Char.isDigit = true :=
    List.all_eq_true.mpr fun c => isDigit_of_mem_toString
  have htext : ("$" ++ toString k).toList = '$' :: (toString k).toList := String.toList_append
  rw [number?, htext]
  show (if _ then _ else _) = _
  rw [if_pos hdigits, Nat.toString_eq_repr, Nat.toList_repr,
    Nat.ofDigitChars_toDigits (by decide) (by decide)]

/-- Text without a dollar sign has no placeholders. -/
theorem placeholders_append {cs : List Char} (h : '$' ∉ cs) (ds : List Char) :
    placeholders (cs ++ ds) = placeholders ds := by
  induction cs with
  | nil => rfl
  | cons c cs ih =>
      obtain ⟨hc, hcs⟩ := List.ne_and_not_mem_of_not_mem_cons h
      rw [List.cons_append, placeholders, if_neg hc.symm, ih hcs]

/-- What ends a word is no digit. -/
theorem not_isDigit_of_endsWord {c : Char} (h : endsWord c = true) : c.isDigit ≠ true := by
  have hmem : c ∈ [' ', '(', ')', ','] := of_decide_eq_true h
  simp only [List.mem_cons, List.not_mem_nil, or_false] at hmem
  rcases hmem with rfl | rfl | rfl | rfl <;> decide

/-- A placeholder goes up to the end of its word. -/
theorem placeholders_dollar (n : Nat) {ds : List Char} (h : ∀ c ∈ ds.head?, endsWord c = true) :
    placeholders ('$' :: ((toString n).toList ++ ds)) = toString n :: placeholders ds := by
  have hends : ds.takeWhile Char.isDigit = [] := by
    cases ds with
    | nil => rfl
    | cons c ds => exact List.takeWhile_cons_of_neg (not_isDigit_of_endsWord (h c rfl))
  have hdollar : '$' ∉ (toString n).toList := fun hmem =>
    absurd (isDigit_of_mem_toString hmem) (by decide)
  rw [placeholders, if_pos rfl, placeholders_append hdollar,
    List.takeWhile_append_of_pos fun c => isDigit_of_mem_toString, hends, List.append_nil,
    String.ofList_toList]

/-! ### Spelled fragments -/

/-- The fragments begin with what ends a word, if they are any. -/
def Opens : List Fragment → Prop
  | [] => True
  | .fixed s :: _ => s.toList.head?.any endsWord = true
  | .bound _ :: _ => False

/-- Fragments that do not run into one another, and of which no fixed one has a dollar sign. -/
inductive Spelled : List Fragment → Prop where
  | nil : Spelled []
  | fixed {s : String} {fs : List Fragment} (plain : '$' ∉ s.toList) (apart : Closes s ∨ Opens fs)
      (rest : Spelled fs) : Spelled (.fixed s :: fs)
  | bound {v : SqlValue} {fs : List Fragment} (apart : Opens fs) (rest : Spelled fs) :
      Spelled (.bound v :: fs)

variable {s : String} {v : SqlValue} {fs gs : List Fragment}

theorem starts_textFrom (h : Opens fs) (n : Nat) : Starts (Fragment.textFrom n fs) := by
  cases fs with
  | nil => rintro c ⟨⟩
  | cons f fs =>
      cases f with
      | bound v => exact h.elim
      | fixed s =>
          obtain ⟨d, hhead, hd⟩ := (Option.any_eq_true _ _).mp h
          rw [Starts, Fragment.textFrom, String.toList_append, List.head?_append, hhead]
          rintro c ⟨⟩
          exact hd

theorem tokensIn_append {values : List SqlValue} {t : String} (h : Closes s ∨ Starts t) :
    tokensIn values (s ++ t) = tokensIn values s ++ tokensIn values t := by
  rw [tokensIn, words_append h, List.map_append]
  rfl

/-- Text without a dollar sign says the same whatever is bound to it. -/
theorem tokensIn_plain (h : '$' ∉ s.toList) (values : List SqlValue) : tokensIn values s = wordsOf s := by
  have hword {w : String} (hw : w ∈ wordsFrom [] s.toList) : number? w = none := by
    rw [number?]
    split
    · rename_i digits heq
      exact absurd (mem_of_mem_wordsFrom (heq ▸ List.mem_cons_self) hw) h
    · rfl
  refine List.map_congr_left fun w hw => ?_
  rw [Token.ofWordIn, boundTo?, hword hw]
  rfl

/-- A placeholder stands for the value under its number. -/
theorem tokensIn_placeholder {values : List SqlValue} {k : Nat} (h : values[k]? = some v) :
    tokensIn values ("$" ++ toString (k + 1)) = [.bound v] := by
  have hchars : ∀ c ∈ ("$" ++ toString (k + 1)).toList, c ∉ [' ', '(', ')', ','] := by
    intro c hc hends
    rw [String.toList_append] at hc
    rcases List.mem_append.mp hc with hc | hc
    · obtain rfl := List.mem_singleton.mp hc
      exact absurd hends (by decide)
    · exact not_isDigit_of_endsWord (decide_eq_true hends) (isDigit_of_mem_toString hc)
  have hword : wordsFrom [] ("$" ++ toString (k + 1)).toList = ["$" ++ toString (k + 1)] := by
    rw [← List.append_nil (String.toList _), wordsFrom_append hchars, List.nil_append, wordsFrom,
      finish, String.ofList_toList, String.toList_append]
    rfl
  rw [tokensIn, hword, List.map_singleton, Token.ofWordIn, boundTo?, number?_placeholder]
  dsimp only
  rw [h]
  rfl

/-- **Each placeholder stands where its value was bound**: whatever has been bound before, the words of
the text and of the fragments are the same. -/
theorem tokensIn_textFrom (h : Spelled fs) (before : List SqlValue) :
    tokensIn (before ++ Fragment.values fs) (Fragment.textFrom (before.length + 1) fs) =
      tokens fs := by
  induction h generalizing before with
  | nil => rfl
  | @fixed s fs plain apart rest ih =>
      rw [Fragment.textFrom, tokensIn_append (apart.imp_right fun h => starts_textFrom h _),
        tokensIn_plain plain, tokens_fixed]
      exact congrArg (wordsOf s ++ ·) (ih before)
  | @bound v fs apart rest ih =>
      have hlater := ih (before ++ [v])
      rw [List.length_append, List.append_assoc] at hlater
      rw [Fragment.textFrom, tokensIn_append (.inr (starts_textFrom apart _)),
        tokensIn_placeholder (v := v) (by simp [Fragment.values]), tokens_bound]
      exact congrArg (.bound v :: ·) hlater

/-- **The text of a statement is read back** with its values in their places. -/
theorem tokensIn_text (h : Spelled fs) :
    tokensIn (Fragment.values fs) (Fragment.text fs) = tokens fs :=
  tokensIn_textFrom h []

/-- **The placeholders of a spelled text** are those of its values, each once and in order. -/
theorem placeholders_textFrom (h : Spelled fs) (n : Nat) :
    placeholders (Fragment.textFrom n fs).toList =
      (List.range' n (Fragment.values fs).length).map toString := by
  induction h generalizing n with
  | nil => rfl
  | @fixed s fs plain apart rest ih =>
      rw [Fragment.textFrom, String.toList_append, placeholders_append plain]
      exact ih n
  | @bound v fs apart rest ih =>
      rw [Fragment.textFrom, String.toList_append, String.toList_append, List.append_assoc]
      refine (placeholders_dollar n (starts_textFrom apart _)).trans ?_
      rw [ih]
      rfl

/-- **Placeholders count the values** from one, in the order of the text. -/
theorem placeholders_text (h : Spelled fs) :
    placeholders (Fragment.text fs).toList =
      (List.range' 1 (Fragment.values fs).length).map toString :=
  placeholders_textFrom h 1

/-! ### Putting fragments together -/

theorem separated_cons (separator : String) (l : List Fragment) (ls : List (List Fragment)) :
    Fragment.separated separator (l :: ls) = l ++ ls.flatMap (.fixed separator :: ·) := by
  induction ls generalizing l with
  | nil => rw [List.flatMap_nil, List.append_nil]; exact List.intercalate_singleton
  | cons m ls ih =>
      rw [Fragment.separated, List.intercalate_cons_cons, List.append_assoc, List.flatMap_cons,
        ← Fragment.separated, ih]
      rfl

theorem Opens.append (hf : Opens fs) (hg : Opens gs) : Opens (fs ++ gs) := by
  cases fs with
  | nil => exact hg
  | cons f fs => cases f <;> exact hf

theorem Spelled.append (hf : Spelled fs) (hg : Spelled gs) (h : Opens gs) : Spelled (fs ++ gs) := by
  induction hf with
  | nil => exact hg
  | fixed plain apart rest ih => exact .fixed plain (apart.imp_right (·.append h)) ih
  | bound apart rest ih => exact .bound (apart.append h) ih

theorem plain_append {t : String} (hs : '$' ∉ s.toList) (ht : '$' ∉ t.toList) :
    '$' ∉ (s ++ t).toList := by
  rw [String.toList_append]
  exact List.not_mem_append hs ht

theorem opens_append {t : String} (h : s.toList.head?.any endsWord = true) :
    (s ++ t).toList.head?.any endsWord = true := by
  obtain ⟨c, hhead, hc⟩ := (Option.any_eq_true _ _).mp h
  rw [String.toList_append, List.head?_append, hhead]
  exact hc

/-- Text that can stand between any two fragments. -/
structure Joint (s : String) : Prop where
  plain : '$' ∉ s.toList
  closes : Closes s
  opens : Opens [.fixed s]

/-- Spelled fragments, each after the same joint. -/
theorem Spelled.joined {α : Type} (hs : Joint s) {f : α → List Fragment} {l : List α}
    (hf : ∀ a ∈ l, Spelled (f a)) :
    Spelled (l.flatMap fun a => .fixed s :: f a) ∧ Opens (l.flatMap fun a => .fixed s :: f a) := by
  induction l with
  | nil => exact ⟨.nil, trivial⟩
  | cons a l ih =>
      obtain ⟨ha, hl⟩ := List.forall_mem_cons.mp hf
      obtain ⟨hspelled, hopens⟩ := ih hl
      exact ⟨.fixed hs.plain (.inl hs.closes) (ha.append hspelled hopens), hs.opens⟩

theorem Spelled.separated (hs : Joint s) {l : List (List Fragment)} (hl : ∀ fs ∈ l, Spelled fs) :
    Spelled (Fragment.separated s l) := by
  cases l with
  | nil => exact .nil
  | cons fs l =>
      obtain ⟨hfs, hl⟩ := List.forall_mem_cons.mp hl
      rw [separated_cons]
      obtain ⟨hspelled, hopens⟩ := joined hs hl
      exact hfs.append hspelled hopens

end Sql

end EventSourcing
