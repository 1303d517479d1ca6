import GermanLox.Proofs.Scope.Lockstep.Statements

/-!
# Programs in lockstep

If one spelling of a program is accepted, so is the other, with the same distances, and the two are
alike as code.
-/

namespace GermanLox

namespace Respelling

variable {ρ : Respelling}

mutual

theorem stmtStep (hρ : ρ.Proper) (s : Stmt) (hformed : s.Formed)
    (hformed' : (s.relabel id ρ.left).Formed) {env : Bindings} {Γ : Layers} {inner inside : Bool}
    {r r' : Resolver} (h : ρ.Before env Γ (s.occurrences inner env) s.numbers r r')
    (hstands : Stands inner inside Γ r) (hhost : ∀ o, s.declares? = some o → ρ.Hosts Γ o)
    (hclean : (Resolver.stmt (s.relabel id ρ.left) r).diagnostics = []) :
    ρ.StmtStep env Γ inner inside s r r' := by
  have hnone : ∀ {s : Stmt}, s.declared? = none → ∀ o, s.declares? = some o → ρ.Hosts Γ o :=
    fun hs o ho => by cases (declares_eq_none hs).symm.trans ho
  match s with
  | .expression e =>
    have hstep := exprStep hρ e hformed h hclean
    exact ⟨hstep.state, fun σ hσ => .expression (hstep.like σ (hσ.informs hstands.ready _))⟩
  | .print e =>
    have hstep := exprStep hρ e hformed h hclean
    exact ⟨hstep.state, fun σ hσ => .print (hstep.like σ (hσ.informs hstands.ready _))⟩
  | .varDecl name initializer => exact varDeclStep hρ hformed h hstands (hhost _ rfl) hclean
  | .block body =>
    exact blockStep hρ
      (fun _ _ _ _ _ _ h₁ h₂ h₃ h₄ => stmtsStep hρ body hformed hformed' h₁ h₂ h₃ h₄)
      hformed' h hstands hclean
  | .ifElse e s none =>
    obtain ⟨hstate, hlike⟩ := conditionStep hρ hformed.1 hformed.2.2
      (fun h₁ h₂ h₃ => stmtStep hρ s hformed.2.1 hformed'.2.1 h₁ h₂ (hnone hformed.2.2) h₃)
      h hstands hclean
    exact ⟨hstate, fun σ hσ => .ifThen (hlike σ hσ).1 (hlike σ hσ).2⟩
  | .ifElse e s (some u) =>
    obtain ⟨hnodupA, hnodupBC, hdisjointA⟩ := List.nodup_append.mp h.nodup
    obtain ⟨hnodupB, hnodupC, hdisjointB⟩ := List.nodup_append.mp hnodupBC
    have hnumbers : ∀ i ∈ u.numbers, i ∉ e.numbers ∧ i ∉ s.numbers := fun i hi =>
      ⟨fun hi' => hdisjointA i hi' i (List.mem_append_right _ hi) rfl,
        fun hi' => hdisjointB i hi' i hi rfl⟩
    obtain ⟨hstate, hlike⟩ := conditionStep hρ hformed.1 hformed.2.1.2
      (fun h₁ h₂ h₃ => stmtStep hρ s hformed.2.1.1 hformed'.2.1.1 h₁ h₂ (hnone hformed.2.1.2) h₃)
      (h.part (fun o ho => by grind [Stmt.occurrences])
        (List.nodup_append.mpr ⟨hnodupA, hnodupB, fun i hi j hj =>
          hdisjointA i hi j (List.mem_append_left _ hj)⟩)
        (fun i hi => by grind [Stmt.numbers]))
      hstands (Resolver.clean_of_stmt _ hclean)
    have hcontext := (Resolver.stmt_context (s.relabel id ρ.left) _).trans
      (Resolver.expr_context (e.relabel id ρ.left) r)
    obtain ⟨hstate', hlike'⟩ := (stmtStep hρ u hformed.2.2.1 hformed'.2.2.1
      (h.next hstate (Eq.mpr (congrArg (Placed · _) (congrArg Prod.snd hcontext)) h.placed)
        (fun o ho => List.mem_append_right _ (List.mem_append_right _ ho)) hnodupC
        (fun i hi => List.mem_append_right _ (List.mem_append_right _ hi))
        (fun i hi => (stmt_distances_relabel (hnumbers i hi).2 _).trans
          (expr_distances_relabel (hnumbers i hi).1 _)))
      (hstands.of_context hcontext) (hnone hformed.2.2.2) hclean).undeclared hformed.2.2.2
    refine ⟨hstate', fun σ hσ => ?_⟩
    obtain ⟨he, hs⟩ := hlike σ (hσ.part (fun t ht => by grind [Stmt.tokens])
      (fun i hi => by grind [Stmt.numbers]) (fun i hi => List.mem_append_left _ hi) fun i hi =>
        stmt_distances_relabel (fun hi' => by have := hnumbers i hi'; grind) _)
    refine .ifElse he hs (hlike' σ (hσ.part ?_ ?_ ?_ fun _ _ => rfl))
    · exact fun t ht => List.mem_append_right _ (List.mem_append_right _ ht)
    · exact fun i hi => List.mem_append_right _ (List.mem_append_right _ hi)
    · exact fun i hi => List.mem_append_right _ hi
  | .loop e s =>
    obtain ⟨hstate, hlike⟩ := conditionStep hρ hformed.1 hformed.2.2
      (fun h₁ h₂ h₃ => stmtStep hρ s hformed.2.1 hformed'.2.1 h₁ h₂ (hnone hformed.2.2) h₃)
      h hstands hclean
    exact ⟨hstate, fun σ hσ => .loop (hlike σ hσ).1 (hlike σ hσ).2⟩
  | .funDecl decl =>
    exact functionDeclStep hρ (fun h₁ h₂ h₃ => functionStep hρ decl hformed.2 hformed'.2 h₁ h₂ h₃)
      hformed.1 h hstands (hhost _ rfl) hclean
  | .ret keyword value => exact returnStep hρ hformed h hstands hclean
  | .classDecl name superclass methods =>
    exact classStep hρ (fun _ _ _ _ h₁ h₂ h₃ =>
      functionsStep hρ methods hformed.2.2 hformed'.2.2 h₁ h₂ h₃) hformed h hstands (hhost _ rfl)
      hclean

theorem stmtsStep (hρ : ρ.Proper) (ss : List Stmt) (hformed : Stmt.FormedAll ss)
    (hformed' : Stmt.FormedAll (Stmt.relabelAll id ρ.left ss)) {env : Bindings} {Γ : Layers}
    {inner inside : Bool} {r r' : Resolver}
    (h : ρ.Before env Γ (Stmt.occurrencesAll inner env ss) (Stmt.numbersAll ss) r r')
    (hstands : Stands inner inside Γ r) (hhost : ∀ o ∈ ss.filterMap Stmt.declares?, ρ.Hosts Γ o)
    (hclean : (Resolver.stmts (Stmt.relabelAll id ρ.left ss) r).diagnostics = []) :
    ρ.StmtsStep Γ inside ss r r' := by
  match ss with
  | [] => exact ⟨⟨env, Γ, h.state, rfl, Iff.rfl⟩, fun σ _ => .nil⟩
  | s :: ss =>
    obtain ⟨hnodupA, hnodupB, hdisjoint⟩ := List.nodup_append.mp h.nodup
    have hfirst : ∀ o, s.declares? = some o → ρ.Hosts Γ o := fun o ho =>
      hhost o (List.mem_filterMap.mpr ⟨s, List.mem_cons_self .., ho⟩)
    have hA := stmtStep hρ s hformed.1 hformed'.1 (h.part (fun _ ho => List.mem_append_left _ ho)
      hnodupA (fun _ hi => List.mem_append_left _ hi)) hstands hfirst
      (Resolver.clean_of_stmts _ hclean)
    obtain ⟨hplaced, hstands', htail, hnil⟩ :=
      layersAfter hformed.1 hfirst h.state.known h.placed hstands
    have hB := stmtsStep hρ ss hformed.2 hformed'.2
      (h.afterStmt hA.state hplaced (fun _ ho => List.mem_append_right _ ho) hnodupB
        (fun _ hi => List.mem_append_right _ hi) (fun i hi hi' => hdisjoint i hi' i hi rfl))
      (hstands'.of_context (Resolver.stmt_context _ _))
      (fun o ho => hostsAfter s (hhost o (by
        obtain ⟨u, hu, ho⟩ := List.mem_filterMap.mp ho
        exact List.mem_filterMap.mpr ⟨u, List.mem_cons_of_mem _ hu, ho⟩))) hclean
    obtain ⟨env₁, Γ₁, hstate, htail', hnil'⟩ := hB.state
    refine ⟨⟨env₁, Γ₁, hstate, htail'.trans htail, hnil'.trans hnil⟩, fun σ hσ =>
      .cons (hA.like σ (hσ.part ?_ ?_ ?_ ?_)) (hB.like σ (hσ.part ?_ ?_ ?_ fun _ _ => rfl))⟩
    · exact fun _ hu => List.mem_append_left _ hu
    · exact fun _ hi => List.mem_append_left _ hi
    · exact fun _ hi => List.mem_append_left _ hi
    · exact fun i hi => stmts_distances_relabel (fun hi' => hdisjoint i hi i hi' rfl) _
    · exact fun _ hu => List.mem_append_right _ hu
    · exact fun _ hi => List.mem_append_right _ hi
    · exact fun _ hi => List.mem_append_right _ hi

theorem functionStep (hρ : ρ.Proper) (decl : FunctionDecl) (hformed : decl.Formed)
    (hformed' : (decl.relabel id ρ.left).Formed) {env : Bindings} {Γ : Layers}
    {context : FunctionContext} {r r' : Resolver}
    (h : ρ.Before env Γ (decl.occurrences env) decl.numbers r r') (hready : Γ.Ready)
    (hclean : (Resolver.function context (decl.relabel id ρ.left) r).diagnostics = []) :
    ρ.FunctionStep env Γ context decl r r' := by
  match decl with
  | ⟨name, params, body⟩ =>
    exact functionStep_of hρ (fun _ _ _ _ _ _ h₁ h₂ h₃ h₄ =>
      stmtsStep hρ body hformed.2 hformed'.2 h₁ h₂ h₃ h₄) hformed hformed'.2 h hready hclean

theorem functionsStep (hρ : ρ.Proper) (decls : List FunctionDecl)
    (hformed : FunctionDecl.FormedAll decls)
    (hformed' : FunctionDecl.FormedAll (FunctionDecl.relabelAll id ρ.left decls))
    {env : Bindings} {Γ : Layers} {r r' : Resolver}
    (h : ρ.Before env Γ (FunctionDecl.occurrencesAll env decls) (FunctionDecl.numbersAll decls)
      r r') (hready : Γ.Ready)
    (hclean : (Resolver.functions (FunctionDecl.relabelAll id ρ.left decls) r).diagnostics = []) :
    ρ.FunctionsStep env Γ decls r r' := by
  match decls with
  | [] => exact ⟨h.state, fun σ _ => .nil⟩
  | decl :: decls =>
    obtain ⟨hnodupA, hnodupB, hdisjoint⟩ := List.nodup_append.mp h.nodup
    have hcontext : Resolver.methodContext (decl.relabel ρ.number ρ.right) =
        Resolver.methodContext (decl.relabel id ρ.left) := by
      cases decl
      have hname := (h.covers _ (List.mem_append_left _ (List.mem_cons_self ..))).same
      exact congrArg (fun n => if n = initializerName then FunctionContext.initializer else .method)
        hname
    have hA := functionStep hρ decl hformed.1 hformed'.1
      (h.part (fun _ ho => List.mem_append_left _ ho) hnodupA
        (fun _ hi => List.mem_append_left _ hi)) hready (Resolver.clean_of_functions _ hclean)
    have hclass := congrArg Prod.snd (Resolver.function_context
      (Resolver.methodContext (decl.relabel id ρ.left)) (decl.relabel id ρ.left) r)
    have hB := functionsStep hρ decls hformed.2 hformed'.2
      (h.next hA.state (Eq.mpr (congrArg (Placed · _) hclass) h.placed)
        (fun _ ho => List.mem_append_right _ ho) hnodupB (fun _ hi => List.mem_append_right _ hi)
        (fun i hi => function_distances_relabel (fun hi' => hdisjoint i hi' i hi rfl) _ _))
      hready hclean
    constructor
    · rw [FunctionDecl.relabelAll, FunctionDecl.relabelAll, Resolver.functions, Resolver.functions,
        hcontext]
      exact hB.state
    · refine fun σ hσ => .cons (hA.like σ (hσ.part ?_ ?_ ?_ ?_))
        (hB.like σ (hσ.part ?_ ?_ ?_ fun _ _ => rfl))
      · exact fun _ hu => List.mem_append_left _ hu
      · exact fun _ hi => List.mem_append_left _ hi
      · exact fun _ hi => List.mem_append_left _ hi
      · exact fun i hi => functions_distances_relabel (fun hi' => hdisjoint i hi i hi' rfl) _
      · exact fun _ hu => List.mem_append_right _ hu
      · exact fun _ hi => List.mem_append_right _ hi
      · exact fun _ hi => List.mem_append_right _ hi

end

/-- Walks that are at the top level, where nothing is local. -/
lemma matches_top {r r' : Resolver} (h : r.scopes = []) (h' : r'.scopes = [])
    (hclean : r.diagnostics = []) (hclean' : r'.diagnostics = [])
    (hdistances : ∀ i : ExprId, ρ.counts i → r'.distances[ρ.number i]? = r.distances[i]?)
    (hcontext : r'.context = r.context) : ρ.Matches Bindings.none [] r r' where
  known := fun _ h => nomatch h
  named := fun _ _ h => nomatch h
  innermost := iff_of_false (fun ⟨_, h, _⟩ => nomatch h) fun h => nomatch h
  ready := fun _ h => nomatch h
  left := by rw [h]; exact List.Forall₂.nil
  right := by rw [h']; exact List.Forall₂.nil
  clean := hclean
  clean_right := hclean'
  distances := hdistances
  context := hcontext

/-- If one spelling of a program is walked over without a fault, so is the other, wherever it
starts at the top level. -/
theorem program_lockstep (hρ : ρ.Proper) {program : List Stmt} (hformed : Stmt.FormedAll program)
    (hformed' : Stmt.FormedAll (Stmt.relabelAll id ρ.left program))
    (hcovers : ∀ o ∈ Stmt.occurrencesAll false Bindings.none program, ρ.Covers o)
    (hnodup : (Stmt.numbersAll program).Nodup) {r' : Resolver}
    (hstart : ρ.Matches Bindings.none [] {} r')
    (hclean : (Resolver.stmts (Stmt.relabelAll id ρ.left program) {}).diagnostics = []) :
    (Resolver.stmts (Stmt.relabelAll ρ.number ρ.right program) r').diagnostics = [] ∧
      (∀ i : ExprId, ρ.counts i →
        (Resolver.stmts (Stmt.relabelAll ρ.number ρ.right program) r').distances[ρ.number i]? =
          (Resolver.stmts (Stmt.relabelAll id ρ.left program) {}).distances[i]?) ∧
      ∀ σ, ρ.Tells σ (Stmt.tokensAll program) (Stmt.numbersAll program)
          (Stmt.ownAssignsAll program)
          (Resolver.stmts (Stmt.relabelAll id ρ.left program) {}).distances →
        StmtsLike σ false [] (Stmt.relabelAll id ρ.left program)
          (Stmt.relabelAll ρ.number ρ.right program) := by
  have hbefore : ρ.Before Bindings.none [] (Stmt.occurrencesAll false Bindings.none program)
      (Stmt.numbersAll program) {} r' :=
    ⟨hcovers, hnodup, fun _ _ => by simp, trivial, hstart⟩
  have hstands : Stands false false [] {} :=
    ⟨fun _ h => (nomatch h), rfl, fun h => absurd rfl h⟩
  have hstep := stmtsStep hρ program hformed hformed' hbefore hstands (fun _ _ _ h => nomatch h)
    hclean
  obtain ⟨env, Γ, hstate, -⟩ := hstep.state
  exact ⟨hstate.clean_right, hstate.distances, hstep.like⟩

end Respelling

end GermanLox
