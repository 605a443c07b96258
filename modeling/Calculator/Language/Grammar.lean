import Calculator.Language.Lexeme

namespace Calculator

inductive IsFactor : List Lexeme → Int → Prop where
  | number (n : Nat) : IsFactor [.number n] n
  | plus {row : List Lexeme} {v : Int} : IsFactor row v → IsFactor (.plus :: row) v
  | minus {row : List Lexeme} {v : Int} : IsFactor row v → IsFactor (.minus :: row) (-v)

-- Terms and their values over all whole numbers. The results of the operators, though not the
-- numerals, have to lie `within` a range. Nothing is divided by zero, and quotients are cut off
-- towards zero.
inductive IsTerm (within : Int → Prop) : List Lexeme → Int → Prop where
  | factor {row : List Lexeme} {v : Int} : IsFactor row v → IsTerm within row v
  | times {row next : List Lexeme} {v w : Int} :
    IsTerm within row v → IsFactor next w → within (v * w) →
    IsTerm within (row ++ .star :: next) (v * w)
  | divided {row next : List Lexeme} {v w : Int} :
    IsTerm within row v → IsFactor next w → w ≠ 0 → within (v.tdiv w) →
    IsTerm within (row ++ .slash :: next) (v.tdiv w)

inductive IsExpression (within : Int → Prop) : List Lexeme → Int → Prop where
  | term {row : List Lexeme} {v : Int} : IsTerm within row v → IsExpression within row v
  | plus {row next : List Lexeme} {v w : Int} :
    IsExpression within row v → IsTerm within next w → within (v + w) →
    IsExpression within (row ++ .plus :: next) (v + w)
  | minus {row next : List Lexeme} {v w : Int} :
    IsExpression within row v → IsTerm within next w → within (v - w) →
    IsExpression within (row ++ .minus :: next) (v - w)

def ExactValue (text : String) (v : Int) : Prop :=
  ∃ row, Spells text.toList row ∧ IsExpression (fun _ => True) row v

end Calculator
