import DdlSchema.Proofs.Parser.Fuel

/-! What the parser says where it refuses a token: it names all that the nodes behind the candidates would
take in its place, and nothing else. -/
namespace DdlSchema

/-- Whether a node that is not idle stands behind some nodes, with only idle ones on the way. -/
def Graph.StandsBehind {Hook : Type} (g : Graph Hook) (starts : List Nat) (id : Nat) : Prop :=
  (g.node id).kind ≠ .idle ∧ ∃ s ∈ starts,
    Relation.ReflTransGen (fun a b => (g.node a).kind = .idle ∧ b ∈ g.successors a) s id

namespace Parser

variable {Hook : Type} {p : Parser Hook} {candidates : List Nat} {next : Option Token}

/-- The error that a token, or the end, fits nowhere. -/
def refusal (next : Option Token) (expected : List String) : ParseError :=
  match next with
  | some token => .unexpectedToken token.describe token.span expected
  | none => .unexpectedEnd expected

section Instance

end Instance

end Parser
end DdlSchema
