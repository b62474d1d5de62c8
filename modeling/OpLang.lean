import OpLang.Proofs.ChainTree
import OpLang.Proofs.DeliveryHistory
import OpLang.Proofs.DiagnosticOrder
import OpLang.Proofs.FirstImpossible
import OpLang.Proofs.Insertion
import OpLang.Proofs.LatestBinding
import OpLang.Proofs.NestingLimit
import OpLang.Proofs.OperatorUse
import OpLang.Proofs.Preorder
import OpLang.Proofs.Resumption
import OpLang.Proofs.UnusedOperators
import OpLang.Proofs.Violations
