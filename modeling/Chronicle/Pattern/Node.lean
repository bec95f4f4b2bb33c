import Chronicle.Pattern.ByteSet

/-!
Patterns as trees.

Counted repetitions are spelled out: `n` copies followed by a loop or by nested optional copies. Each
loop carries a number that no other loop of the pattern has, by which the search counts its rounds.
-/

namespace Chronicle.Pattern

inductive Node
  | empty
  | one (set : ByteSet)
  | seq (first second : Node)
  | alt (first second : Node)
  | group (index : Nat) (body : Node)
  /-- no round or more -/
  | star (loop : Nat) (greedy : Bool) (body : Node)
  /-- one round or more -/
  | plus (loop : Nat) (greedy : Bool) (body : Node)
  /-- at most one round -/
  | opt (loop : Nat) (greedy : Bool) (body : Node)
  | lineStart
  | lineEnd
  | boundary (negated : Bool)
  /-- what follows has to match the body, or must not, and is not consumed -/
  | look (negated : Bool) (body : Node)
  /-- what an earlier group matched -/
  | reference (index : Nat)
  deriving DecidableEq, Repr

namespace Node

/-- `count` copies of a node, then another one. -/
def copies (body : Node) (last : Node) : Nat → Node
  | 0 => last
  | count + 1 => seq body (copies body last count)

/-- Up to `count` copies, each one only if those before it are there. -/
def upTo (greedy : Bool) (body : Node) : Nat → Node
  | 0 => empty
  | count + 1 => opt 0 greedy (seq body (upTo greedy body count))

/-- Gives the loops numbers from `next` on, and says which number comes after them. -/
def numbered : Node → Nat → Node × Nat
  | seq first second, next =>
    let (first, next) := numbered first next
    let (second, next) := numbered second next
    (seq first second, next)
  | alt first second, next =>
    let (first, next) := numbered first next
    let (second, next) := numbered second next
    (alt first second, next)
  | group index body, next =>
    let (body, next) := numbered body next
    (group index body, next)
  | star _ greedy body, next =>
    let (body, after) := numbered body (next + 1)
    (star next greedy body, after)
  | plus _ greedy body, next =>
    let (body, after) := numbered body (next + 1)
    (plus next greedy body, after)
  | opt _ greedy body, next =>
    let (body, after) := numbered body (next + 1)
    (opt next greedy body, after)
  | look negated body, next =>
    let (body, next) := numbered body next
    (look negated body, next)
  | node, next => (node, next)

end Node

end Chronicle.Pattern
