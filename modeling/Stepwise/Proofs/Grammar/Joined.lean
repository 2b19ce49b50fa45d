import Stepwise.Proofs.Grammar.Lines
import Stepwise.Proofs.Grammar.Parts
import Stepwise.Proofs.Token.Joined

/-! Programs one behind the other. No production goes on across the end of a program, so the tokens of
two programs are read to both of them in one; and so are two texts with a line end between them. -/
namespace Stepwise
open Assembly
open Grammar (Leaf)

variable {ts us : List Token} {p q : Program}

/- One program behind another: its declarations behind those of the other, and its workflows too. -/
def Program.followedBy (p q : Program) : Program :=
  ⟨p.declarations ++ q.declarations, p.workflows ++ q.workflows, p.line⟩

namespace Assembly

/- Tokens that fit fit behind others, unless a number in front of them comes to stand behind the
keyword of a step. -/
theorem Fits.append (h : Fits ts) (k : Fits us) (apart : ∀ t ∈ us.head?, t.kind ≠ .number) :
    Fits (ts ++ us) := by
  have either : ∀ t, StepNumbered (ts ++ us) t → StepNumbered ts t ∨ StepNumbered us t := by
    intro t numbered
    obtain ⟨number, word, inside⟩ := numbered
    rcases List.infix_append_iff.mp inside with left | right | ⟨a, b, parts, ends, starts⟩
    · exact .inl ⟨number, word, left⟩
    · exact .inr ⟨number, word, right⟩
    · cases a with
      | nil =>
        rw [List.nil_append] at parts
        exact .inr ⟨number, word, parts ▸ starts.isInfix⟩
      | cons first a =>
        obtain ⟨rfl, others⟩ := List.cons.inj parts
        cases a with
        | nil =>
          obtain rfl : [t] = b := others
          obtain ⟨rest, rfl⟩ := starts
          exact absurd number (apart t rfl)
        | cons second a =>
          obtain ⟨rfl, none⟩ := List.cons.inj others
          rw [(List.append_eq_nil_iff.mp none.symm).1] at ends
          exact .inl ⟨number, word, ends.isInfix⟩
  refine ⟨fun t inside => ?_, fun t at_ => ?_, fun t at_ => ?_⟩
  · exact (List.mem_append.mp inside).elim (h.spelled t) (k.spelled t)
  · exact (either t at_).elim (h.plain t) (k.plain t)
  · exact (either t at_).elim (h.short t) (k.short t)

end Assembly

/- No item begins with a number. -/
theorem Grammar.Source.startNumberless (d : Grammar.Source) :
    ∀ t ∈ d.tokens.head?, t.kind ≠ .number := by
  intro t first number
  cases d with
  | nil => cases first
  | cons item rest =>
    cases item with
    | declaration d =>
      obtain ⟨w, word, _⟩ := d.word.2
      obtain rfl : d.word.val = t := Option.some.inj first
      cases number.symm.trans word
    | workflow w =>
      obtain rfl : w.word.val = t := Option.some.inj first
      cases number.symm.trans w.word.2

/- The tokens of one program in front of those of another are read to the one behind the other. -/
theorem parseInTurn (spelled : NumbersSpelled ts) (spelledBehind : NumbersSpelled us)
    (read : parse ts = .ok p) (readBehind : parse us = .ok q) :
    parse (beforeEnd ts ++ us) = .ok (p.followedBy q) := by
  obtain ⟨fits, d, yields, rfl⟩ := parseDerived spelled read
  obtain ⟨fitsBehind, e, yieldsBehind, rfl⟩ := parseDerived spelledBehind readBehind
  have goesOn : ∀ t ∈ beforeEnd ts, (t.kind != .endOfInput) = true := fun t => List.mem_takeWhile_imp
  have parts : Grammar.Source.tokens (d ++ e) = d.tokens ++ e.tokens := List.flatMap_append
  have whole : Grammar.Source.tokens (d ++ e) = beforeEnd (beforeEnd ts ++ us) := by
    calc Grammar.Source.tokens (d ++ e) = beforeEnd ts ++ beforeEnd us := by
          rw [parts, yields, yieldsBehind]
      _ = beforeEnd (beforeEnd ts ++ us) := (List.takeWhile_append_of_pos goesOn).symm
  have both : Grammar.Source.tree (d ++ e) = d.tree.followedBy e.tree := by
    simp only [Grammar.Source.tree, Program.followedBy, List.filterMap_append]
  rw [← both]
  refine derivedParse ?_ whole
  rw [← yields] at fits
  rw [← yieldsBehind] at fitsBehind
  rw [parts]
  exact fits.append fitsBehind e.startNumberless

/- Of what is scanned, only the last token is the end of input. -/
theorem scannedBeforeEnd {source : String} (scanned : tokenize source = .ok ts) :
    ts ≠ [] ∧ beforeEnd ts = ts.dropLast := by
  obtain ⟨each, last, rfl, written⟩ := tokenizeWritten scanned
  refine ⟨List.append_ne_nil_of_right_ne_nil each nofun, ?_⟩
  rw [beforeEndWritten written, List.dropLast_concat]

theorem NumbersSpelled.relined (g : Nat → Nat) (spelled : NumbersSpelled us) :
    NumbersSpelled (us.map (Token.relined g)) := by
  intro t inside number
  obtain ⟨u, among, rfl⟩ := List.mem_map.mp inside
  exact spelled u among number

theorem Program.followedByRelined (g : Nat → Nat) (p q : Program) :
    (p.followedBy q).relined g = (p.relined g).followedBy (q.relined g) := by
  simp only [relined, followedBy, List.map_append]

/- Where the lines of the program behind stand does not matter. -/
theorem Program.followedByAlike (g : Nat → Nat) (p q : Program) :
    (p.followedBy (q.relined g)).same (p.followedBy q) = true := by
  refine sameAlike (g := fun _ => 0) (h := fun _ => 0) ?_
  rw [followedByRelined, followedByRelined, relinedTwice]
  rfl

/- Texts with a line end between them are scanned as each is by itself, the second on later lines,
and with the fault of the second if it has one; and if both are programs, they are read to the one
behind the other. -/
theorem parseJoined {first : String} (scanned : tokenize first = .ok ts) (second : String) :
    tokenize (first ++ "\n" ++ second) =
        ((tokenize second).map fun us =>
          ts.dropLast ++ us.map (Token.relined (linesBehind first))).mapError
            (LexFault.relined (linesBehind first)) ∧
      ∀ us p q, tokenize second = .ok us → parse ts = .ok p → parse us = .ok q →
        ∃ whole r, tokenize (first ++ "\n" ++ second) = .ok whole ∧ parse whole = .ok r ∧
          r = p.followedBy (q.relined (linesBehind first)) ∧ r.same (p.followedBy q) = true := by
  refine ⟨tokenizeJoined scanned second, fun us p q scannedBehind read readBehind => ?_⟩
  obtain ⟨_, front⟩ := scannedBeforeEnd scanned
  obtain ⟨some, _⟩ := scannedBeforeEnd scannedBehind
  have later : parse (us.map (Token.relined (linesBehind first))) =
      .ok (q.relined (linesBehind first)) := by
    rw [parseRelined _ some, readBehind]
    rfl
  refine ⟨ts.dropLast ++ us.map (Token.relined (linesBehind first)), _, ?_, ?_, rfl,
    Program.followedByAlike _ p q⟩
  · rw [tokenizeJoined scanned, scannedBehind]
    rfl
  · rw [← front]
    exact parseInTurn (tokenizeSpelled scanned) ((tokenizeSpelled scannedBehind).relined _) read later

/- An expression could go on behind the first text, and the last ends in an open string. -/
def nameText : String := "let a = b\n"

def resultText : String := "var c = step 1"

def openText : String := "var c =\n'"

def nameTokens : List Token :=
  [⟨.keyword .letWord, "let", none, 1⟩, ⟨.identifier, "a", none, 1⟩, ⟨.mark .equal, "=", none, 1⟩,
    ⟨.identifier, "b", none, 1⟩, .endAt 2]

def resultTokens : List Token :=
  [⟨.keyword .varWord, "var", none, 1⟩, ⟨.identifier, "c", none, 1⟩, ⟨.mark .equal, "=", none, 1⟩,
    ⟨.keyword .step, "step", none, 1⟩, ⟨.number, "1", some "1", 1⟩, .endAt 1]

def nameProgram : Program := ⟨[⟨"let", "a", .name "b" (some 1), some 1⟩], [], some 1⟩

def resultProgram : Program := ⟨[⟨"var", "c", .result 1 none (some 1), some 1⟩], [], some 1⟩

theorem nameTextJoined :
    tokenize nameText = .ok nameTokens ∧
      tokenize (nameText ++ "\n" ++ openText) = .error ⟨.unterminated, 4⟩ ∧
      ∃ whole r, tokenize (nameText ++ "\n" ++ resultText) = .ok whole ∧ parse whole = .ok r ∧
        r.same (nameProgram.followedBy resultProgram) = true := by
  have scanned : tokenize nameText = .ok nameTokens := by cbv
  have scannedBehind : tokenize resultText = .ok resultTokens := by cbv
  have fault : tokenize openText = .error ⟨.unterminated, 2⟩ := by cbv
  refine ⟨scanned, ?_, ?_⟩
  · rw [(parseJoined scanned openText).1, fault]
    rfl
  · obtain ⟨whole, r, joined, read, _, same⟩ :=
      (parseJoined scanned resultText).2 _ nameProgram resultProgram scannedBehind rfl rfl
    exact ⟨whole, r, joined, read, same⟩

end Stepwise
