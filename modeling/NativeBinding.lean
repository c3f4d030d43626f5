import NativeBinding.Binding.Assemble
import NativeBinding.CommandLine.Run
import NativeBinding.Config
import NativeBinding.Decl.Parse
import NativeBinding.Main
import NativeBinding.Proofs.Binding.AttributeOrder
import NativeBinding.Proofs.Binding.CStrings
import NativeBinding.Proofs.Binding.CallingOrder
import NativeBinding.Proofs.Binding.ContextHandles
import NativeBinding.Proofs.Binding.FirstWins
import NativeBinding.Proofs.Binding.ItemOutcomes
import NativeBinding.Proofs.Binding.ItemRoles
import NativeBinding.Proofs.Binding.MarkWinners
import NativeBinding.Proofs.Binding.Parameters
import NativeBinding.Proofs.Binding.RawNames
import NativeBinding.Proofs.Binding.SignatureText
import NativeBinding.Proofs.Body.Partner
import NativeBinding.Proofs.Decl.Diagnosed
import NativeBinding.Proofs.Decl.Fillers
import NativeBinding.Proofs.Decl.Initializers
import NativeBinding.Proofs.Decl.Rejected
import NativeBinding.Proofs.Decl.RoundTrip
import NativeBinding.Proofs.Decl.Sentences
import NativeBinding.Proofs.Decl.Unmasked
import NativeBinding.Proofs.Overrides
import NativeBinding.Proofs.Report.Accounting
import NativeBinding.Proofs.Report.Isolation
import NativeBinding.Report.Render
