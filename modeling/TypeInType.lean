import TypeInType.Main
import TypeInType.Proofs.Session.Declarations
import TypeInType.Proofs.Typing.Completeness
import TypeInType.Proofs.Typing.Convertibility
import TypeInType.Proofs.Expr.Grammar
import TypeInType.Proofs.Expr.Reading
import TypeInType.Proofs.Term.Nameless
import TypeInType.Proofs.Expr.AlphaEq
import TypeInType.Proofs.Term.Identification
import TypeInType.Proofs.Token.Words
import TypeInType.Proofs.Layout
import TypeInType.Proofs.Term.FreshName
import TypeInType.Proofs.Term.Phrase
import TypeInType.Proofs.Term.RoundTrip
import TypeInType.Proofs.Term.Alike
import TypeInType.Proofs.Term.Along
import TypeInType.Proofs.Typing.Fuel
import TypeInType.Proofs.Value.Simulation
import TypeInType.Proofs.Value.Along
import TypeInType.Proofs.Value.Substitution
import TypeInType.Proofs.Typing.Simulation
import TypeInType.Proofs.Typing.Formers
import TypeInType.Proofs.Normalisation
import TypeInType.Proofs.Session.Simulation
import TypeInType.Proofs.Session.Commutation
import TypeInType.Proofs.Expr.Concatenation
import TypeInType.Proofs.Session.Concatenation
import TypeInType.Proofs.Session.Origins
import TypeInType.Proofs.Session.WellFormed
import TypeInType.Proofs.Session.Definitions
import TypeInType.Proofs.Term.Capture
import TypeInType.Proofs.Expr.Places
import TypeInType.Proofs.Typing.Places
import TypeInType.Proofs.Typing.Equality
import TypeInType.Proofs.Session.Equality
import TypeInType.Proofs.Value.Abstraction
import TypeInType.Proofs.Session.Postulates
import TypeInType.Proofs.Session.Attempts
import TypeInType.Proofs.Session.Failures
import TypeInType.Proofs.Value.Scope
import TypeInType.Proofs.Typing.Irrelevance
import TypeInType.Proofs.Typing.Renaming
import TypeInType.Proofs.Session.Weakening
import TypeInType.Proofs.Value.Iteration
import TypeInType.Proofs.Term.Shape
import TypeInType.Proofs.Typing.VectorLength
import TypeInType.Proofs.Expr.Failing
import TypeInType.Proofs.Expr.Errors
import TypeInType.Proofs.Token.Spelling
import TypeInType.Proofs.Expr.Viability
import TypeInType.Proofs.Token.LongestMatch
import TypeInType.Proofs.Token.Tokenisation
import TypeInType.Proofs.Term.LeastName
import TypeInType.Proofs.Signature.Tables
import TypeInType.Proofs.Expr.Ranges
