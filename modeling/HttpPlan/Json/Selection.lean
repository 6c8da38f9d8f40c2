import HttpPlan.Json.Reader

/-! Reading only the wanted parts of JSON text. The rest has to be well formed, but nothing is made
of it: its numbers may have any size, its surrogate escapes need no partner, and its containers may
stand inside each other to any depth. -/
namespace HttpPlan.Json

/-- The wanted parts of a value: all of it, or the given fields if it is a record. -/
inductive Selection where
  | whole
  | record (fields : List (String × Selection))

namespace Skip

open Reader (skipBlank)

/-- Passes over a string after its opening quote. -/
def text : List Char → Option (List Char)
  | [] => none
  | '"' :: rest => some rest
  | '\\' :: 'u' :: a :: b :: c :: d :: rest =>
    if (Radix.nat? 16 [a, b, c, d]).isSome then text rest else none
  | '\\' :: e :: rest => if (Reader.simpleEscape e).isSome then text rest else none
  | c :: rest => if c.toNat < 32 ∨ c = '\\' then none else text rest

/-- Passes over a number after its sign. -/
def number (cs : List Char) : Option (List Char) :=
  match Reader.digits cs with
  | ([], _) => none
  | ('0' :: _ :: _, _) => none
  | (_, rest) => do
    let (_, rest) ← Reader.fractionPart rest
    let (_, rest) ← Reader.exponentPart rest
    return rest

mutual
/-- Passes over a value. `fuel` bounds the values passed. -/
def value : Nat → List Char → Option (List Char)
  | 0, _ => none
  | fuel + 1, cs =>
    match skipBlank cs with
    | 'n' :: 'u' :: 'l' :: 'l' :: rest => some rest
    | 't' :: 'r' :: 'u' :: 'e' :: rest => some rest
    | 'f' :: 'a' :: 'l' :: 's' :: 'e' :: rest => some rest
    | '"' :: rest => text rest
    | '-' :: rest => number rest
    | '[' :: rest =>
      match skipBlank rest with
      | ']' :: rest => some rest
      | rest => items fuel rest
    | '\x7b' :: rest =>
      match skipBlank rest with
      | '\x7d' :: rest => some rest
      | rest => fields fuel rest
    | rest => number rest
/-- Passes over the values of an array and its end. -/
def items : Nat → List Char → Option (List Char)
  | 0, _ => none
  | fuel + 1, cs => do
    match skipBlank (← value fuel cs) with
    | ',' :: rest => items fuel rest
    | ']' :: rest => return rest
    | _ => none
/-- Passes over the fields of an object and its end. -/
def fields : Nat → List Char → Option (List Char)
  | 0, _ => none
  | fuel + 1, cs =>
    match skipBlank cs with
    | '"' :: rest => do
      match skipBlank (← text rest) with
      | ':' :: rest =>
        match skipBlank (← value fuel rest) with
        | ',' :: rest => fields fuel rest
        | '\x7d' :: rest => return rest
        | _ => none
      | _ => none
    | _ => none
end

end Skip

namespace Selection

open Reader (skipBlank)

mutual
/-- The wanted parts of a value. `depth` is how many more containers may be opened; `fuel` bounds
the values read. -/
def value : Nat → Nat → Selection → List Char → Option (Json × List Char)
  | 0, _, _, _ => none
  | fuel + 1, depth, whole, cs => Reader.value (fuel + 1) depth cs
  | fuel + 1, depth, record wanted, cs =>
    match skipBlank cs with
    | '[' :: rest =>
      if depth = 0 then none
      else match skipBlank rest with
        | ']' :: rest => some (.array [], rest)
        | rest => (items fuel (depth - 1) wanted rest).map fun (vs, rest) => (.array vs, rest)
    | '\x7b' :: rest =>
      if depth = 0 then none
      else match skipBlank rest with
        | '\x7d' :: rest => some (.object [], rest)
        | rest => (fields fuel (depth - 1) wanted rest).map fun (fs, rest) => (.object fs, rest)
    | rest => Reader.value (fuel + 1) depth rest
/-- The elements of a record that is written as an array. Those past its last field are read as
they stand. -/
def items : Nat → Nat → List (String × Selection) → List Char → Option (List Json × List Char)
  | 0, _, _, _ => none
  | fuel + 1, depth, wanted, cs => do
    let (v, rest) ← value fuel depth ((wanted.head?.map (·.2)).getD whole) cs
    match skipBlank rest with
    | ',' :: rest =>
      let (vs, rest) ← items fuel depth wanted.tail rest
      return (v :: vs, rest)
    | ']' :: rest => return ([v], rest)
    | _ => none
/-- The wanted fields of an object. -/
def fields :
    Nat → Nat → List (String × Selection) → List Char → Option (List (String × Json) × List Char)
  | 0, _, _, _ => none
  | fuel + 1, depth, wanted, cs =>
    match skipBlank cs with
    | '"' :: rest => do
      let (key, rest) ← Reader.text rest
      match skipBlank rest with
      | ':' :: rest =>
        let (read, rest) ←
          match wanted.lookup key with
          | some part => (value fuel depth part rest).map fun (v, rest) => ([(key, v)], rest)
          | none => (Skip.value fuel rest).map ([], ·)
        match skipBlank rest with
        | ',' :: rest =>
          let (fs, rest) ← fields fuel depth wanted rest
          return (read ++ fs, rest)
        | '\x7d' :: rest => return (read, rest)
        | _ => none
      | _ => none
    | _ => none
end

/-- The wanted parts of the value a text holds, with repeated keys as written. -/
def read? (wanted : Selection) (s : String) : Option Json := do
  let cs := s.toList
  let (v, rest) ← value (2 * cs.length + 2) maxDepth wanted cs
  if (skipBlank rest).isEmpty then some v else none

end Selection

end HttpPlan.Json
