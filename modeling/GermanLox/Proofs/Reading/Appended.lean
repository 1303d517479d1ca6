import GermanLox.Proofs.Cursor.Bounds
import GermanLox.Proofs.Reading.Programs

/-!
# One program after the other

A program that parses leaves nothing behind but its statements and the next free expression number:
what is put after it is parsed as it would be alone, faults included. Only a `sonst` in front would
be taken by a `wenn` at the end of the first program.
-/

namespace GermanLox
namespace Reading

open GermanLox.Parser

/-- Behind declarations items are read as they are alone. -/
lemma Declarations.itemsUntil_append {k ts ss k' ds} (h : Declarations k ts ss k' ds)
    (room r : Nat) (rest : List Token) (hrest : NoElse rest) (hroom : (ts ++ rest).length ≤ room)
    {line : Nat} (notes : List Diagnostic) {more : List Stmt} {s' : State}
    (hmore : itemsUntil (fun _ => false) (item room) r ⟨rest, line, k', notes ++ ds⟩ =
      .ok more s') :
    itemsUntil (fun _ => false) (item room) (ss.length + r) ⟨ts ++ rest, line, k, notes⟩ =
      .ok (ss ++ more) s' := by
  match h with
  | .nil => simpa using hmore
  | @Declarations.cons dangling _ ts s k₁ ds₁ us ss _ ds₂ hs hss =>
    have hfirst := hs.takes room (us ++ rest) (by simpa using hroom) (fun _ => hss.noElse hrest)
    have hinner := hss.itemsUntil_append room r rest hrest (by simp at hroom ⊢; omega)
      (notes ++ ds₁) (by simpa using hmore)
    obtain ⟨t, vs, rfl, -⟩ := hs.first
    rw [List.length_cons, Nat.add_right_comm, List.append_assoc]
    refine EStateM.bind_eq_of_ok rfl ?_
    refine EStateM.bind_eq_of_ok (hfirst line notes) ?_
    exact EStateM.bind_eq_of_ok hinner rfl

end Reading

namespace Parser

/-- Where reading starts does not depend on what is put in front, apart from the tokens. -/
lemma start_of_append {first second ending : List Token} (hfirst : ∀ t ∈ first, t.kind ≠ .eof)
    (hsecond : ∀ t ∈ second, t.kind ≠ .eof)
    (hending : (ending = [] ∧ second ≠ []) ∨ ∃ mark, mark.kind = .eof ∧ ending = [mark]) :
    ∃ line, ∀ k, State.start (second ++ ending) k = ⟨second, line, k, []⟩ ∧
      State.start (first ++ (second ++ ending)) k = ⟨first ++ second, line, k, []⟩ := by
  have hboth : ∀ t ∈ first ++ second, t.kind ≠ .eof := by
    intro t ht
    rcases List.mem_append.mp ht with ht | ht
    · exact hfirst t ht
    · exact hsecond t ht
  rcases hending with ⟨rfl, hne⟩ | ⟨mark, hmark, rfl⟩
  · refine ⟨(second.getLast?.map Token.line).getD 1, fun k => ?_⟩
    have hlast : (first ++ second).getLast? = second.getLast? := by
      rw [List.getLast?_append, List.getLast?_eq_some_getLast hne, Option.some_or]
    rw [List.append_nil, start_of_kind_ne hsecond, start_of_kind_ne hboth, hlast]
    exact ⟨rfl, rfl⟩
  · refine ⟨mark.line, fun k => ⟨start_append hsecond hmark [] k, ?_⟩⟩
    rw [← List.append_assoc]
    exact start_append hboth hmark [] k

end Parser

/-- Parsing is compositional: behind a program that parses, the rest is parsed as it is alone, from
the number that the first program leaves, and with the same diagnostics if it is wrong. -/
theorem parse_append {first second ending : List Token} {k k' : ExprId} {program : List Stmt}
    (hfirst : ∀ t ∈ first, t.kind ≠ .eof) (hsecond : ∀ t ∈ second, t.kind ≠ .eof)
    (hending : ending = [] ∨ ∃ mark, mark.kind = .eof ∧ ending = [mark])
    (hparse : parse first k = ⟨.ok program, k'⟩)
    (helse : second.head?.any (·.isKeyword .sonst) = false) :
    parse (first ++ (second ++ ending)) k =
      ⟨(parse (second ++ ending) k').outcome.map (program ++ ·),
        (parse (second ++ ending) k').nextId⟩ := by
  have hread : Reading.Declarations k first program k' [] := by
    have h := parse_eq_ok_iff.mp hparse
    rwa [List.takeWhile_eq_self_iff.mpr (by simpa using hfirst)] at h
  by_cases hempty : ending = [] ∧ second = []
  · obtain ⟨rfl, rfl⟩ := hempty
    have hnothing : parse ([] ++ []) k' = ⟨.ok [], k'⟩ := rfl
    have happend : first ++ ([] ++ []) = first := by simp
    rw [hnothing, happend, hparse]
    simp [Except.map]
  · have hmark : (ending = [] ∧ second ≠ []) ∨ ∃ mark, mark.kind = .eof ∧ ending = [mark] := by
      tauto
    obtain ⟨line, hstart⟩ := Parser.start_of_append hfirst hsecond hmark
    let room := (first ++ second).length
    have hsecond_le : second.length ≤ room := by simp [room]
    obtain ⟨more, s', hmore⟩ := Parser.exists_items ⟨second, line, k', []⟩ hsecond
    have hitems := hmore room room hsecond_le hsecond_le
    -- the loop of the whole goes round once more for each statement of the first program
    have hwhole := hread.itemsUntil_append room room second helse (Nat.le_refl _) [] hitems
    rw [parse_eq_of_items (hstart k').1 hsecond_le hsecond_le hitems,
      parse_eq_of_items (hstart k).2 (Nat.le_refl room) (Nat.le_add_left room _) hwhole]
    cases s'.diagnostics.isEmpty with
    | true => rfl
    | false => rfl

/-- Behind a `wenn` that could still take a `sonst`, a fault is found as it is alone. -/
theorem parse_append_lone_semicolon :
    parse [⟨.keyword .wenn, "wenn", 1⟩, ⟨.symbol .leftParen, "(", 1⟩, ⟨.keyword .wahr, "wahr", 1⟩,
        ⟨.symbol .rightParen, ")", 1⟩, ⟨.identifier, "a", 1⟩, ⟨.symbol .semicolon, ";", 1⟩] 7 =
      ⟨.ok [.ifElse (.literal 7 (.bool true)) (.expression (.var 8 ⟨.identifier, "a", 1⟩)) none],
        9⟩ ∧
    parse [⟨.symbol .semicolon, ";", 2⟩, ⟨.eof, "", 3⟩] 9 =
      ⟨.error [.syntactic 2 .expressionExpected], 9⟩ ∧
    parse ([⟨.keyword .wenn, "wenn", 1⟩, ⟨.symbol .leftParen, "(", 1⟩, ⟨.keyword .wahr, "wahr", 1⟩,
        ⟨.symbol .rightParen, ")", 1⟩, ⟨.identifier, "a", 1⟩, ⟨.symbol .semicolon, ";", 1⟩] ++
        ([⟨.symbol .semicolon, ";", 2⟩] ++ [⟨.eof, "", 3⟩])) 7 =
      ⟨.error [.syntactic 2 .expressionExpected], 9⟩ :=
  ⟨rfl, rfl, parse_append (by simp) (by simp) (.inr ⟨_, rfl, rfl⟩) rfl rfl⟩

end GermanLox
