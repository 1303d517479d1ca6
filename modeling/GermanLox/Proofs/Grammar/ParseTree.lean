import GermanLox.Proofs.Grammar.Ebnf

/-!
# Parse trees

How a list of tokens was derived: a parse tree is a token, or what a rule made of its parts. Every
derivation has one, so what holds of all parse trees of a grammar holds of all that it derives.
-/

namespace GermanLox

/-- A tree over the rules with names in `ν`, with tokens at its leaves. -/
inductive ParseTree (ν : Type) where
  | token (t : Token)
  | node (name : ν) (parts : List (ParseTree ν))

namespace ParseTree

variable {ν : Type}

mutual

/-- The tokens of a parse tree, in order. -/
def tokens : ParseTree ν → List Token
  | token t => [t]
  | node _ parts => tokensAll parts

def tokensAll : List (ParseTree ν) → List Token
  | [] => []
  | p :: ps => p.tokens ++ tokensAll ps

end

@[simp] lemma tokens_token (t : Token) : (token t : ParseTree ν).tokens = [t] :=
  rfl

@[simp] lemma tokens_node (name : ν) (parts : List (ParseTree ν)) :
    (node name parts).tokens = tokensAll parts :=
  rfl

@[simp] lemma tokensAll_nil : tokensAll ([] : List (ParseTree ν)) = [] :=
  rfl

@[simp] lemma tokensAll_cons (p : ParseTree ν) (ps : List (ParseTree ν)) :
    tokensAll (p :: ps) = p.tokens ++ tokensAll ps :=
  rfl

@[simp] lemma tokensAll_append (ps qs : List (ParseTree ν)) :
    tokensAll (ps ++ qs) = tokensAll ps ++ tokensAll qs := by
  induction ps with
  | nil => rfl
  | cons p ps ih => simp [ih]

mutual

/-- The nodes of a parse tree, each behind what is in its parts. -/
def nodes : ParseTree ν → List (ParseTree ν)
  | token _ => []
  | node name parts => nodesAll parts ++ [node name parts]

def nodesAll : List (ParseTree ν) → List (ParseTree ν)
  | [] => []
  | p :: ps => p.nodes ++ nodesAll ps

end

@[simp] lemma nodes_token (t : Token) : (token t : ParseTree ν).nodes = [] :=
  rfl

@[simp] lemma nodes_node (name : ν) (parts : List (ParseTree ν)) :
    (node name parts).nodes = nodesAll parts ++ [node name parts] :=
  rfl

@[simp] lemma nodesAll_nil : nodesAll ([] : List (ParseTree ν)) = [] :=
  rfl

@[simp] lemma nodesAll_cons (p : ParseTree ν) (ps : List (ParseTree ν)) :
    nodesAll (p :: ps) = p.nodes ++ nodesAll ps :=
  rfl

@[simp] lemma nodesAll_append (ps qs : List (ParseTree ν)) :
    nodesAll (ps ++ qs) = nodesAll ps ++ nodesAll qs := by
  induction ps with
  | nil => rfl
  | cons p ps ih => simp [ih]

end ParseTree

namespace Ebnf

variable {ν : Type} {rules : ν → Ebnf ν}

/-- How a right-hand side is built by a set of rules, part by part. -/
inductive Builds (rules : ν → Ebnf ν) : Ebnf ν → List (ParseTree ν) → Prop
  | terminal {accepts t} (h : accepts t) : Builds rules (.terminal accepts) [.token t]
  | rule {name ps} (h : Builds rules (rules name) ps) : Builds rules (.rule name) [.node name ps]
  | seq {a b ps qs} (ha : Builds rules a ps) (hb : Builds rules b qs) :
    Builds rules (a ++ b) (ps ++ qs)
  | left {a b ps} (h : Builds rules a ps) : Builds rules (a ||| b) ps
  | right {a b ps} (h : Builds rules b ps) : Builds rules (a ||| b) ps
  | absent {a} : Builds rules (.opt a) []
  | present {a ps} (h : Builds rules a ps) : Builds rules (.opt a) ps
  | done {a} : Builds rules (.many a) []
  | again {a ps qs} (ha : Builds rules a ps) (hs : Builds rules (.many a) qs) :
    Builds rules (.many a) (ps ++ qs)
  | enough {limit a} : Builds rules (.upTo limit a) []
  | further {limit a ps qs} (ha : Builds rules a ps) (hs : Builds rules (.upTo limit a) qs) :
    Builds rules (.upTo (limit + 1) a) (ps ++ qs)

/-- Every derivation has its parse trees. -/
lemma Derives.exists_builds {e : Ebnf ν} {ts : List Token} (h : Derives rules e ts) :
    ∃ ps, Builds rules e ps ∧ ParseTree.tokensAll ps = ts := by
  induction h with
  | terminal h => exact ⟨_, .terminal h, rfl⟩
  | rule _ ih =>
    obtain ⟨ps, hps, rfl⟩ := ih
    exact ⟨_, .rule hps, by simp⟩
  | seq _ _ iha ihb =>
    obtain ⟨ps, hps, rfl⟩ := iha
    obtain ⟨qs, hqs, rfl⟩ := ihb
    exact ⟨_, .seq hps hqs, by simp⟩
  | left _ ih =>
    obtain ⟨ps, hps, rfl⟩ := ih
    exact ⟨ps, .left hps, rfl⟩
  | right _ ih =>
    obtain ⟨ps, hps, rfl⟩ := ih
    exact ⟨ps, .right hps, rfl⟩
  | absent => exact ⟨_, .absent, rfl⟩
  | present _ ih =>
    obtain ⟨ps, hps, rfl⟩ := ih
    exact ⟨ps, .present hps, rfl⟩
  | done => exact ⟨_, .done, rfl⟩
  | again _ _ iha ihs =>
    obtain ⟨ps, hps, rfl⟩ := iha
    obtain ⟨qs, hqs, rfl⟩ := ihs
    exact ⟨_, .again hps hqs, by simp⟩
  | enough => exact ⟨_, .enough, rfl⟩
  | further _ _ iha ihs =>
    obtain ⟨ps, hps, rfl⟩ := iha
    obtain ⟨qs, hqs, rfl⟩ := ihs
    exact ⟨_, .further hps hqs, by simp⟩

/-- What is built has a derivation. -/
lemma Builds.derives {e : Ebnf ν} {ps : List (ParseTree ν)} (h : Builds rules e ps) :
    Derives rules e (ParseTree.tokensAll ps) := by
  induction h with
  | terminal h => exact .terminal h
  | rule _ ih => simpa using Derives.rule ih
  | seq _ _ iha ihb => simpa using Derives.seq iha ihb
  | left _ ih => exact .left ih
  | right _ ih => exact .right ih
  | absent => exact .absent
  | present _ ih => exact .present ih
  | done => exact .done
  | again _ _ iha ihs => simpa using Derives.again iha ihs
  | enough => exact .enough
  | further _ _ iha ihs => simpa using Derives.further iha ihs

/-- All nodes of a parse tree are built by the rules. -/
lemma Builds.of_mem_nodes {e : Ebnf ν} {ps : List (ParseTree ν)} (h : Builds rules e ps) {name : ν}
    {parts : List (ParseTree ν)} (hmem : .node name parts ∈ ParseTree.nodesAll ps) :
    Builds rules (rules name) parts := by
  induction h with
  | terminal _ => cases hmem
  | @rule name' ps h ih =>
    simp only [ParseTree.nodesAll_cons, ParseTree.nodes_node, ParseTree.nodesAll_nil,
      List.append_nil, List.mem_append, List.mem_singleton, ParseTree.node.injEq] at hmem
    rcases hmem with hmem | ⟨rfl, rfl⟩
    · exact ih hmem
    · exact h
  | seq _ _ iha ihb | again _ _ iha ihb | further _ _ iha ihb =>
    rw [ParseTree.nodesAll_append, List.mem_append] at hmem
    exact hmem.elim iha ihb
  | left _ ih | right _ ih | present _ ih => exact ih hmem
  | absent => cases hmem
  | done => cases hmem
  | enough => cases hmem

/-- What a right-hand side says of its parts under a meaning of the names. -/
def Fits (meaning : ν → ParseTree ν → Prop) : Ebnf ν → List (ParseTree ν) → Prop
  | terminal accepts, ps => ∃ t, accepts t ∧ ps = [.token t]
  | rule name, ps => ∃ parts, meaning name (.node name parts) ∧ ps = [.node name parts]
  | seq a b, ps => ∃ qs rs, a.Fits meaning qs ∧ b.Fits meaning rs ∧ ps = qs ++ rs
  | alt a b, ps => a.Fits meaning ps ∨ b.Fits meaning ps
  | opt a, ps => ps = [] ∨ a.Fits meaning ps
  | many a, ps => ∃ parts : List (List (ParseTree ν)),
    (∀ part ∈ parts, a.Fits meaning part) ∧ ps = parts.flatten
  | upTo limit a, ps => ∃ parts : List (List (ParseTree ν)),
    (∀ part ∈ parts, a.Fits meaning part) ∧ parts.length ≤ limit ∧ ps = parts.flatten

/-- A meaning that is closed under the rules holds of all parse trees. -/
theorem Builds.fits {meaning : ν → ParseTree ν → Prop}
    (hclosed : ∀ name parts, (rules name).Fits meaning parts → meaning name (.node name parts))
    {e : Ebnf ν} {ps : List (ParseTree ν)} (h : Builds rules e ps) : e.Fits meaning ps := by
  induction h with
  | terminal h => exact ⟨_, h, rfl⟩
  | rule _ ih => exact ⟨_, hclosed _ _ ih, rfl⟩
  | seq _ _ iha ihb => exact ⟨_, _, iha, ihb, rfl⟩
  | left _ ih => exact .inl ih
  | right _ ih => exact .inr ih
  | absent => exact .inl rfl
  | present _ ih => exact .inr ih
  | done => exact ⟨[], by simp, rfl⟩
  | @again a ps qs _ _ iha ihs =>
    obtain ⟨parts, hparts, rfl⟩ := ihs
    exact ⟨ps :: parts, by simpa using ⟨iha, hparts⟩, by simp⟩
  | enough => exact ⟨[], by simp, by simp, rfl⟩
  | @further limit a ps qs _ _ iha ihs =>
    obtain ⟨parts, hparts, hlen, rfl⟩ := ihs
    exact ⟨ps :: parts, by simpa using ⟨iha, hparts⟩, by simpa using hlen, by simp⟩

lemma Fits.of_mem {meaning : ν → ParseTree ν → Prop} {e : Ebnf ν} {ps : List (ParseTree ν)}
    (h : e.Fits meaning ps) {p : ParseTree ν} (hp : p ∈ ps) :
    (∃ t, p = .token t) ∨ ∃ name, meaning name p := by
  induction e generalizing ps with
  | terminal accepts =>
    obtain ⟨t, -, rfl⟩ := h
    exact .inl ⟨t, by simpa using hp⟩
  | rule name =>
    obtain ⟨parts, hparts, rfl⟩ := h
    obtain rfl : p = .node name parts := by simpa using hp
    exact .inr ⟨name, hparts⟩
  | seq a b iha ihb =>
    obtain ⟨qs, rs, ha, hb, rfl⟩ := h
    exact (List.mem_append.mp hp).elim (iha ha) (ihb hb)
  | alt a b iha ihb => exact h.elim (iha · hp) (ihb · hp)
  | opt a ih =>
    rcases h with rfl | h
    · cases hp
    · exact ih h hp
  | many a ih =>
    obtain ⟨parts, hparts, rfl⟩ := h
    obtain ⟨part, hpart, hp⟩ := List.mem_flatten.mp hp
    exact ih (hparts part hpart) hp
  | upTo limit a ih =>
    obtain ⟨parts, hparts, -, rfl⟩ := h
    obtain ⟨part, hpart, hp⟩ := List.mem_flatten.mp hp
    exact ih (hparts part hpart) hp

/-- Right-hand sides for one token, of some kinds. -/
def IsToken : Ebnf ν → Prop
  | terminal _ => True
  | alt a b => a.IsToken ∧ b.IsToken
  | _ => False

@[simp] lemma isToken_or (a b : Ebnf ν) : (a ||| b).IsToken ↔ a.IsToken ∧ b.IsToken :=
  Iff.rfl

lemma Fits.yields_of_isToken {meaning : ν → ParseTree ν → Prop} {meaning' : ν → List Token → Prop}
    {e : Ebnf ν} {ps : List (ParseTree ν)} (h : e.Fits meaning ps) (he : e.IsToken) :
    ∃ t, ps = [.token t] ∧ e.Yields meaning' [t] := by
  induction e with
  | terminal accepts =>
    obtain ⟨t, ht, rfl⟩ := h
    exact ⟨t, rfl, t, ht, rfl⟩
  | alt a b iha ihb =>
    rcases h with h | h
    · obtain ⟨t, hps, ht⟩ := iha h he.1
      exact ⟨t, hps, .inl ht⟩
    · obtain ⟨t, hps, ht⟩ := ihb h he.2
      exact ⟨t, hps, .inr ht⟩
  | _ => cases he

/-- A right-hand side without its bounds. -/
def unbounded : Ebnf ν → Ebnf ν
  | terminal accepts => terminal accepts
  | rule name => rule name
  | seq a b => seq a.unbounded b.unbounded
  | alt a b => alt a.unbounded b.unbounded
  | opt a => opt a.unbounded
  | many a => many a.unbounded
  | upTo _ a => many a.unbounded

lemma Builds.unbounded {e : Ebnf ν} {ps : List (ParseTree ν)} (h : Builds rules e ps) :
    Builds (fun name => (rules name).unbounded) e.unbounded ps := by
  induction h with
  | terminal h => exact .terminal h
  | rule _ ih => exact .rule ih
  | seq _ _ iha ihb => exact .seq iha ihb
  | left _ ih => exact .left ih
  | right _ ih => exact .right ih
  | absent => exact .absent
  | present _ ih => exact .present ih
  | done => exact .done
  | again _ _ iha ihs => exact .again iha ihs
  | enough => exact .done
  | further _ _ iha ihs => exact .again iha ihs

/-- No terminal takes an end mark, and all names are among the inner ones. -/
def NoMark (inner : ν → Prop) : Ebnf ν → Prop
  | terminal accepts => ∀ t : Token, accepts t → t.kind ≠ .eof
  | rule name => inner name
  | seq a b => a.NoMark inner ∧ b.NoMark inner
  | alt a b => a.NoMark inner ∧ b.NoMark inner
  | opt a => a.NoMark inner
  | many a => a.NoMark inner
  | upTo _ a => a.NoMark inner

@[simp] lemma noMark_append {inner : ν → Prop} {a b : Ebnf ν} :
    (a ++ b).NoMark inner ↔ a.NoMark inner ∧ b.NoMark inner :=
  Iff.rfl

@[simp] lemma noMark_or {inner : ν → Prop} {a b : Ebnf ν} :
    (a ||| b).NoMark inner ↔ a.NoMark inner ∧ b.NoMark inner :=
  Iff.rfl

lemma NoMark.unbounded {inner : ν → Prop} {e : Ebnf ν} (h : e.NoMark inner) :
    e.unbounded.NoMark inner := by
  induction e with
  | terminal accepts => exact h
  | rule name => exact h
  | seq a b iha ihb | alt a b iha ihb => exact ⟨iha h.1, ihb h.2⟩
  | opt a ih | many a ih | upTo limit a ih => exact ih h

lemma Builds.kind_ne {inner : ν → Prop} (hrules : ∀ name, inner name → (rules name).NoMark inner)
    {e : Ebnf ν} {ps : List (ParseTree ν)} (h : Builds rules e ps) (he : e.NoMark inner) :
    ∀ t ∈ ParseTree.tokensAll ps, t.kind ≠ .eof := by
  induction h with
  | @terminal accepts t h => simpa using he t h
  | rule _ ih => simpa using ih (hrules _ he)
  | seq _ _ iha ihb =>
    rw [ParseTree.tokensAll_append]
    exact List.forall_mem_append.mpr ⟨iha he.1, ihb he.2⟩
  | left _ ih => exact ih he.1
  | right _ ih => exact ih he.2
  | present _ ih => exact ih he
  | absent | done | enough => simp
  | again _ _ iha ihs | further _ _ iha ihs =>
    rw [ParseTree.tokensAll_append]
    exact List.forall_mem_append.mpr ⟨iha he, ihs he⟩

end Ebnf
end GermanLox
