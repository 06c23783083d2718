import TemplateRecognizer.Diagnostic
import TemplateRecognizer.Grammar.Derivation
import TemplateRecognizer.Proofs.Json.Overlay
import TemplateRecognizer.Proofs.Lexer.Longest
import TemplateRecognizer.Proofs.Lexer.Spelling
import TemplateRecognizer.Proofs.Recognizer.Chain
import TemplateRecognizer.Proofs.Recognizer.Concatenation
import TemplateRecognizer.Proofs.Recognizer.CorrectPrefix
import TemplateRecognizer.Proofs.Recognizer.DepthLimit
import TemplateRecognizer.Proofs.Recognizer.Expectation
import TemplateRecognizer.Proofs.Recognizer.Insertion
import TemplateRecognizer.Proofs.Recognizer.KindsOnly
import TemplateRecognizer.Proofs.Recognizer.Nesting
import TemplateRecognizer.Proofs.Recognizer.Placement
import TemplateRecognizer.Proofs.Recognizer.Strictness
import TemplateRecognizer.Proofs.Session.Accounting
import TemplateRecognizer.Proofs.Session.Interchange
import TemplateRecognizer.Proofs.Session.Reload
import TemplateRecognizer.Proofs.Snippet.Alignment
import TemplateRecognizer.Proofs.Snippet.Caret
import TemplateRecognizer.Session
import TemplateRecognizer.Proofs.Json.Diagnostic
import TemplateRecognizer.Proofs.Recognizer.Levels
