import Lexicon.Proofs.Fidelity
import Lexicon.Proofs.Forest.Loading
import Lexicon.Proofs.Dictionary.Compaction
import Lexicon.Proofs.Dictionary.Refusal
import Lexicon.Proofs.Dictionary.Headroom
import Lexicon.Proofs.Dictionary.Damage
import Lexicon.Proofs.Dictionary.Passage
import Lexicon.Proofs.Forest.Reinsertion
import Lexicon.Proofs.Forest.Rewriting
import Lexicon.Proofs.Dictionary.Economy
import Lexicon.Proofs.Dictionary.Catalogue
import Lexicon.Proofs.Suggestion.Shortlist
import Lexicon.Proofs.Suggestion.Reference
import Lexicon.Proofs.Dictionary.Accounts
import Lexicon.Proofs.Dictionary.Chronicle
import Lexicon.Proofs.Dictionary.Traversal
import Lexicon.Proofs.Dictionary.Inquiry
import Lexicon.Proofs.Forest.Enumeration
import Lexicon.Proofs.Suggestion.Prediction
import Lexicon.Proofs.Corruption
import Lexicon.Proofs.Dictionary.Resumption
import Lexicon.Proofs.Forest.Arborescence
import Lexicon.Proofs.Forest.Depth
import Lexicon.Proofs.Dictionary.InPlace
import Lexicon.Proofs.Suggestion.Gesture
