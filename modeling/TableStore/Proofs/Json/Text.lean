import TableStore.Json.Text
import TableStore.Proofs.Json.Quoted
import TableStore.Proofs.Number.Literal

/-!
# JSON texts written and read

A tree whose strings are texts and whose numbers have no superfluous zeros is written as a text
that is read as this tree. Reading the tokens is an induction on the tree: no number is followed by
what would go on with it, since a comma, a closing bracket or the end comes behind every value.
Putting the tree together is another one, over the stack of what is still open.
-/

namespace TableStore.Json

/-! ## Tokens -/

namespace Token

/-- Whether a token is read from its own text. -/
def IsCanonical : Token → Prop
  | .number literal => literal.IsCanonical
  | .string text => text.isSome = true
  | _ => True

/-- Whether a token may be followed by a text: what follows a number does not go on with it. -/
def EndsBefore : Token → List Char → Prop
  | .number _, rest => Literal.Ends rest
  | _, _ => True

theorem takeFrom_number {literal : Literal} (hliteral : literal.IsCanonical) {rest : List Char}
    (h : Literal.Ends rest) :
    takeFrom (literal.chars ++ rest) = some (.number literal, rest) := by
  obtain ⟨c, more, hchars, hc⟩ := Literal.exists_chars_eq_cons hliteral
  have hread := Literal.takeFrom_chars_append hliteral h
  have hne (mark : Char) (hminus : '-' ≠ mark) (hdigit : Digit.ofChar? mark = none) :
      c ≠ mark := by
    rcases hc with rfl | ⟨d, rfl⟩
    · exact hminus
    · exact d.char_ne hdigit
  have hmark : ofMark? c = none := by
    unfold ofMark?
    iterate 6 rw [if_neg (hne _ (by decide) (by decide))]
  have hword : takeWord (c :: (more ++ rest)) = none := by
    unfold takeWord
    split
    · next heq => exact absurd (List.cons.inj heq).1 (hne _ (by decide) (by decide))
    · next heq => exact absurd (List.cons.inj heq).1 (hne _ (by decide) (by decide))
    · next heq => exact absurd (List.cons.inj heq).1 (hne _ (by decide) (by decide))
    · rfl
  rw [hchars, List.cons_append] at hread ⊢
  rw [takeFrom, hmark]
  dsimp only
  rw [if_neg (hne _ (by decide) (by decide)), hword]
  dsimp only
  rw [hread, Option.map_some]

/-- **A token is read from its own text.** -/
theorem takeFrom_chars_append {token : Token} (htoken : token.IsCanonical) {rest : List Char}
    (h : token.EndsBefore rest) : takeFrom (token.chars ++ rest) = some (token, rest) := by
  match token, htoken with
  | .number literal, hliteral => exact takeFrom_number hliteral h
  | .string (some text), _ =>
    have hquoted := Quoted.takeFrom_flatMap text rest
    simp only [chars, Quoted.quote, List.cons_append, List.append_assoc, List.nil_append]
    rw [takeFrom]
    change Option.map _ (Quoted.takeFrom _) = _
    rw [hquoted, Option.map_some]
  | .null, _ | .bool true, _ | .bool false, _ => rfl
  | .openArray, _ | .closeArray, _ | .openObject, _ | .closeObject, _ | .comma, _ | .colon, _ =>
    rfl

theorem isBlank_char (d : Digit) : isBlank d.char = false := by
  revert d
  decide

/-- No token begins with a blank. -/
theorem exists_chars_eq_cons {token : Token} (htoken : token.IsCanonical) :
    ∃ c rest, token.chars = c :: rest ∧ isBlank c = false := by
  match token, htoken with
  | .number literal, hliteral =>
    obtain ⟨c, rest, hchars, hc⟩ := Literal.exists_chars_eq_cons hliteral
    refine ⟨c, rest, hchars, ?_⟩
    rcases hc with rfl | ⟨d, rfl⟩
    · rfl
    · exact isBlank_char d
  | .string (some text), _ => exact ⟨_, _, rfl, rfl⟩
  | .null, _ | .bool true, _ | .bool false, _ => exact ⟨_, _, rfl, rfl⟩
  | .openArray, _ | .closeArray, _ | .openObject, _ | .closeObject, _ | .comma, _ | .colon, _ =>
    exact ⟨_, _, rfl, rfl⟩

theorem ofChars_chars_append {token : Token} (htoken : token.IsCanonical) {rest : List Char}
    (h : token.EndsBefore rest) :
    ofChars (token.chars ++ rest) = (ofChars rest).map (token :: ·) := by
  obtain ⟨c, more, hchars, hblank⟩ := exists_chars_eq_cons htoken
  have hread := takeFrom_chars_append htoken h
  rw [hchars, List.cons_append] at hread ⊢
  rw [ofChars, if_neg (by rw [hblank]; exact Bool.false_ne_true)]
  split
  · next heq =>
    rw [hread] at heq
    cases heq
  · next heq =>
    rw [hread] at heq
    cases heq
    rfl

end Token

/-! ## The tokens of a tree -/

/-- Whether all strings are texts and no number has superfluous zeros. -/
def IsCanonical (tree : Json) : Prop :=
  ∀ token ∈ tree.tokens, token.IsCanonical

theorem isCanonical_itemTokens : ∀ {items : List Json}, (∀ item ∈ items, item.IsCanonical) →
    ∀ token ∈ itemTokens items, token.IsCanonical
  | [], _ => nofun
  | [item], h => h item (List.mem_singleton_self _)
  | item :: next :: more, h => by
    obtain ⟨hitem, hmore⟩ := List.forall_mem_cons.mp h
    simp only [itemTokens, List.forall_mem_append, List.forall_mem_cons]
    exact ⟨hitem, trivial, isCanonical_itemTokens hmore⟩

theorem isCanonical_memberTokens : ∀ {members : List (JsonText × Json)},
    (∀ member ∈ members, member.1.isSome = true ∧ member.2.IsCanonical) →
      ∀ token ∈ memberTokens members, token.IsCanonical
  | [], _ => nofun
  | [(name, item)], h => by
    obtain ⟨hname, hitem⟩ := h _ (List.mem_singleton_self _)
    simp only [memberTokens, List.forall_mem_cons]
    exact ⟨hname, trivial, hitem⟩
  | (name, item) :: next :: more, h => by
    obtain ⟨⟨hname, hitem⟩, hmore⟩ := List.forall_mem_cons.mp h
    simp only [memberTokens, List.forall_mem_append, List.forall_mem_cons]
    exact ⟨⟨hname, trivial, hitem⟩, trivial, isCanonical_memberTokens hmore⟩

theorem isCanonical_array {items : List Json} (h : ∀ item ∈ items, item.IsCanonical) :
    (array items).IsCanonical := by
  rw [IsCanonical, tokens, List.cons_append, List.forall_mem_cons, List.forall_mem_append,
    List.forall_mem_singleton]
  exact ⟨trivial, isCanonical_itemTokens h, trivial⟩

theorem isCanonical_object {members : List (JsonText × Json)}
    (h : ∀ member ∈ members, member.1.isSome = true ∧ member.2.IsCanonical) :
    (object members).IsCanonical := by
  rw [IsCanonical, tokens, List.cons_append, List.forall_mem_cons, List.forall_mem_append,
    List.forall_mem_singleton]
  exact ⟨trivial, isCanonical_memberTokens h, trivial⟩

/-- Whether the tokens in front of a text are read before it. -/
def ReadsBefore (tokens : List Token) (rest : List Char) : Prop :=
  Token.ofChars (tokens.flatMap Token.chars ++ rest) = (Token.ofChars rest).map (tokens ++ ·)

theorem ReadsBefore.nil (rest : List Char) : ReadsBefore [] rest := by
  change Token.ofChars rest = (Token.ofChars rest).map id
  rw [Option.map_id, id]

theorem ReadsBefore.cons {token : Token} (htoken : token.IsCanonical) {tokens : List Token}
    {rest : List Char} (hends : token.EndsBefore (tokens.flatMap Token.chars ++ rest))
    (h : ReadsBefore tokens rest) : ReadsBefore (token :: tokens) rest := by
  unfold ReadsBefore at h ⊢
  rw [List.flatMap_cons, List.append_assoc, Token.ofChars_chars_append htoken hends, h,
    Option.map_map]
  rfl

theorem ReadsBefore.append {before after : List Token} {rest : List Char}
    (hbefore : ReadsBefore before (after.flatMap Token.chars ++ rest))
    (hafter : ReadsBefore after rest) : ReadsBefore (before ++ after) rest := by
  unfold ReadsBefore at hbefore hafter ⊢
  rw [List.flatMap_append, List.append_assoc, hbefore, hafter, Option.map_map]
  simp only [Function.comp_def, List.append_assoc]

theorem ReadsBefore.single {token : Token} (htoken : token.IsCanonical) {rest : List Char}
    (hends : token.EndsBefore rest) : ReadsBefore [token] rest :=
  .cons htoken hends (.nil rest)

/-- Whether a mark stands behind values. -/
def Token.IsSeparator (token : Token) : Prop :=
  token = .comma ∨ token = .closeArray ∨ token = .closeObject

/-- A mark behind a value ends a number. -/
theorem Token.IsSeparator.ends {token : Token} (h : token.IsSeparator) (tokens : List Token)
    (rest : List Char) : Literal.Ends ((token :: tokens).flatMap chars ++ rest) := by
  intro first hfirst
  rcases h with rfl | rfl | rfl <;> cases hfirst <;> decide

mutual

/-- **The tokens of a tree are read**, if what follows does not go on with a number. -/
theorem readsBefore_tokens : ∀ {tree : Json} {rest : List Char},
    (∀ token ∈ tree.tokens, token.IsCanonical) → Literal.Ends rest →
      ReadsBefore tree.tokens rest
  | .null, _, h, _ | .bool _, _, h, _ | .string _, _, h, _ =>
    .single (h _ (List.mem_singleton_self _)) trivial
  | .number _, _, h, hends => .single (h _ (List.mem_singleton_self _)) hends
  | .array items, rest, h, _ => by
    rw [tokens, List.cons_append] at h ⊢
    simp only [List.forall_mem_cons, List.forall_mem_append] at h
    obtain ⟨hopen, hitems, hclose, _⟩ := h
    have hends := Token.IsSeparator.ends (Or.inr (Or.inl rfl)) [] rest
    exact .cons hopen trivial
      (.append (readsBefore_itemTokens hitems hends) (.single hclose trivial))
  | .object members, rest, h, _ => by
    rw [tokens, List.cons_append] at h ⊢
    simp only [List.forall_mem_cons, List.forall_mem_append] at h
    obtain ⟨hopen, hmembers, hclose, _⟩ := h
    have hends := Token.IsSeparator.ends (Or.inr (Or.inr rfl)) [] rest
    exact .cons hopen trivial
      (.append (readsBefore_memberTokens hmembers hends) (.single hclose trivial))

theorem readsBefore_itemTokens : ∀ {items : List Json} {rest : List Char},
    (∀ token ∈ itemTokens items, token.IsCanonical) → Literal.Ends rest →
      ReadsBefore (itemTokens items) rest
  | [], rest, _, _ => .nil rest
  | [_], _, h, hends => readsBefore_tokens h hends
  | item :: next :: more, rest, h, hends => by
    simp only [itemTokens, List.forall_mem_cons, List.forall_mem_append] at h ⊢
    obtain ⟨hitem, hcomma, hmore⟩ := h
    have hread := readsBefore_tokens hitem
      (Token.IsSeparator.ends (Or.inl rfl) (itemTokens (next :: more)) rest)
    exact .append hread (.cons hcomma trivial (readsBefore_itemTokens hmore hends))

theorem readsBefore_memberTokens : ∀ {members : List (JsonText × Json)} {rest : List Char},
    (∀ token ∈ memberTokens members, token.IsCanonical) → Literal.Ends rest →
      ReadsBefore (memberTokens members) rest
  | [], rest, _, _ => .nil rest
  | [(_, _)], _, h, hends => by
    simp only [memberTokens, List.forall_mem_cons] at h ⊢
    obtain ⟨hname, hcolon, hitem⟩ := h
    exact .cons hname trivial (.cons hcolon trivial (readsBefore_tokens hitem hends))
  | (_, _) :: next :: more, rest, h, hends => by
    simp only [memberTokens, List.forall_mem_cons, List.forall_mem_append] at h ⊢
    obtain ⟨⟨hname, hcolon, hitem⟩, hcomma, hmore⟩ := h
    have hread := readsBefore_tokens hitem
      (Token.IsSeparator.ends (Or.inl rfl) (memberTokens (next :: more)) rest)
    exact .append (.cons hname trivial (.cons hcolon trivial hread))
      (.cons hcomma trivial (readsBefore_memberTokens hmore hends))

end

theorem ofChars_tokens {tree : Json} (h : tree.IsCanonical) :
    Token.ofChars (tree.tokens.flatMap Token.chars) = some tree.tokens := by
  have hread : ReadsBefore tree.tokens [] := readsBefore_tokens h nofun
  have hnil : Token.ofChars [] = some [] := by rw [Token.ofChars]
  rw [ReadsBefore, List.append_nil, hnil, Option.map_some, List.append_nil] at hread
  exact hread

/-! ## The tree of tokens -/

/-- Whether reading goes from one state to another. -/
def Reading.Runs (before : Reading) (tokens : List Token) (after : Reading) : Prop :=
  tokens.foldlM Reading.step before = some after

namespace Reading.Runs

variable {before between after : Reading}

theorem nil (reading : Reading) : Runs reading [] reading :=
  rfl

theorem cons {token : Token} {tokens : List Token} (hstep : before.step token = some between)
    (h : Runs between tokens after) : Runs before (token :: tokens) after := by
  rw [Runs, List.foldlM_cons, hstep]
  exact h

theorem append {tokens others : List Token} (h : Runs before tokens between)
    (hothers : Runs between others after) : Runs before (tokens ++ others) after := by
  rw [Runs, List.foldlM_append, h]
  exact hothers

end Reading.Runs

/-- Whether a value may come next. -/
def Expected.IsValue (expected : Expected) : Prop :=
  expected = .value ∨ expected = .item

theorem Reading.step_of_isValue {expected : Expected} (h : expected.IsValue) (stack : List Frame)
    {token : Token} (htoken : token ≠ .closeArray) :
    Reading.step ⟨stack, expected⟩ token = Reading.startValue stack token := by
  rcases h with rfl | rfl
  · rfl
  · unfold Reading.step
    split <;> simp_all

/-- Whether the name of a member may come next. -/
def Expected.IsName (expected : Expected) : Prop :=
  expected = .name ∨ expected = .member

theorem Reading.step_of_isName {expected : Expected} (h : expected.IsName) (stack : List Frame)
    (name : JsonText) :
    Reading.step ⟨stack, expected⟩ (.string name) = some ⟨stack, .colon name⟩ := by
  rcases h with rfl | rfl
  · rfl
  · unfold Reading.step
    split <;> simp_all [startMember]

mutual

/-- **Reading the tokens of a tree comes to this tree**, whatever is still open. -/
theorem runs_tokens : ∀ (tree : Json) (stack : List Frame) {expected : Expected},
    expected.IsValue → Reading.Runs ⟨stack, expected⟩ tree.tokens ⟨stack, .after tree⟩
  | .null, stack, _, h | .bool _, stack, _, h | .number _, stack, _, h | .string _, stack, _, h =>
    .cons (Reading.step_of_isValue h stack nofun) (.nil _)
  | .array items, stack, _, h => by
    refine .cons (Reading.step_of_isValue h stack nofun) ?_
    cases hitems : items with
    | nil => exact .cons rfl (.nil _)
    | cons item more =>
      rw [← hitems]
      exact runs_itemTokens items (hitems ▸ List.cons_ne_nil _ _) [] stack (Or.inr rfl)
  | .object members, stack, _, h => by
    refine .cons (Reading.step_of_isValue h stack nofun) ?_
    cases hmembers : members with
    | nil => exact .cons rfl (.nil _)
    | cons member more =>
      rw [← hmembers]
      exact runs_memberTokens members (hmembers ▸ List.cons_ne_nil _ _) [] stack (Or.inr rfl)

/-- Items are put behind those that have been read. -/
theorem runs_itemTokens : ∀ (items : List Json), items ≠ [] → ∀ (before : List Json)
    (stack : List Frame) {expected : Expected}, expected.IsValue →
      Reading.Runs ⟨.array before :: stack, expected⟩ (itemTokens items ++ [.closeArray])
        ⟨stack, .after (.array (before.reverse ++ items))⟩
  | [], hne, _, _, _, _ => absurd rfl hne
  | [item], _, before, stack, _, h => by
    rw [← List.reverse_cons]
    exact .append (runs_tokens item _ h) (.cons rfl (.nil _))
  | item :: next :: more, _, before, stack, _, h => by
    have hmore := runs_itemTokens (next :: more) (List.cons_ne_nil _ _) (item :: before) stack
      (Or.inl rfl)
    rw [List.reverse_cons, List.append_assoc] at hmore
    simp only [itemTokens, List.append_assoc]
    exact .append (runs_tokens item _ h) (.cons rfl hmore)

/-- Members are put behind those that have been read. -/
theorem runs_memberTokens : ∀ (members : List (JsonText × Json)), members ≠ [] →
    ∀ (before : List (JsonText × Json)) (stack : List Frame) {expected : Expected},
    expected.IsName →
      Reading.Runs ⟨.object before :: stack, expected⟩ (memberTokens members ++ [.closeObject])
        ⟨stack, .after (.object (before.reverse ++ members))⟩
  | [], hne, _, _, _, _ => absurd rfl hne
  | [(name, item)], _, before, stack, _, h => by
    have hname := Reading.step_of_isName h (.object before :: stack) name
    rw [← List.reverse_cons]
    exact .cons hname (.cons rfl (.append (runs_tokens item _ (Or.inl rfl)) (.cons rfl (.nil _))))
  | (name, item) :: next :: more, _, before, stack, _, h => by
    have hname := Reading.step_of_isName h (.object before :: stack) name
    have hmore := runs_memberTokens (next :: more) (List.cons_ne_nil _ _)
      ((name, item) :: before) stack (Or.inl rfl)
    rw [List.reverse_cons, List.append_assoc] at hmore
    simp only [memberTokens, List.append_assoc]
    exact .cons hname (.cons rfl (.append (runs_tokens item _ (Or.inl rfl)) (.cons rfl hmore)))

end

theorem ofTokens?_tokens (tree : Json) : ofTokens? tree.tokens = some tree := by
  have hruns : tree.tokens.foldlM Reading.step ⟨[], .value⟩ = some ⟨[], .after tree⟩ :=
    runs_tokens tree [] (Or.inl rfl)
  rw [ofTokens?, hruns]
  rfl

/-- A text is read as the tree that its tokens spell. -/
theorem parse?_of_ofChars {text : String} {tree : Json}
    (h : Token.ofChars text.toList = some tree.tokens) : parse? text = some tree := by
  rw [parse?, h]
  exact ofTokens?_tokens tree

/-- **The text of a tree is read as this tree.** -/
theorem parse?_render {tree : Json} (h : tree.IsCanonical) : parse? tree.render = some tree := by
  apply parse?_of_ofChars
  rw [render, String.toList_ofList, ofChars_tokens h]

end TableStore.Json
