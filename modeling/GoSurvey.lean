import GoSurvey.Main
import GoSurvey.Proofs.CallGraph.Caller
import GoSurvey.Proofs.CallGraph.Edges
import GoSurvey.Proofs.Flow.Shape
import GoSurvey.Proofs.Flow.Readers
import GoSurvey.Report.Endpoint
import GoSurvey.Proofs.Source.Matching
import GoSurvey.Proofs.Declaration.Extent
import GoSurvey.Proofs.Declaration.Pass
import GoSurvey.Proofs.CallGraph.Outside
import GoSurvey.Proofs.Declaration.ParameterList
import GoSurvey.Proofs.Declaration.Printed
import GoSurvey.Proofs.Declaration.RoundTrip
import GoSurvey.Proofs.Declaration.Located
import GoSurvey.Proofs.Declaration.ValueFile
import GoSurvey.Proofs.Source.Block
import GoSurvey.Proofs.Pattern.Step
import GoSurvey.Proofs.Route.Form
import GoSurvey.Proofs.Route.Call
import GoSurvey.Proofs.Route.Method
import GoSurvey.Proofs.Route.Identity
import GoSurvey.Proofs.Project.Files
import GoSurvey.Proofs.Project.Independence
import GoSurvey.Proofs.CallGraph.Report
import GoSurvey.Proofs.Report.Containment
import GoSurvey.Proofs.CallGraph.Receiver
import GoSurvey.Proofs.Project.Operations
import GoSurvey.Proofs.Flow.Body
import GoSurvey.Proofs.Flow.FieldNames
import GoSurvey.Proofs.Symbol.Definition
import GoSurvey.Proofs.Declaration.ValueLine
import GoSurvey.Proofs.Declaration.CommentedOut
import GoSurvey.Proofs.Symbol.Group
import GoSurvey.Proofs.Source.Note
import GoSurvey.Proofs.Declaration.Noted
import GoSurvey.Proofs.Source.Body
import GoSurvey.Proofs.Source.LookBack
import GoSurvey.Proofs.Declaration.Unfinished
import GoSurvey.Proofs.Declaration.FieldLine
import GoSurvey.Proofs.Declaration.SharedType
import GoSurvey.Proofs.Declaration.StructText
import GoSurvey.Proofs.Declaration.TypeText
import GoSurvey.Proofs.Declaration.InterfaceText
import GoSurvey.Proofs.Declaration.ImportFile
import GoSurvey.Proofs.Route.NormalPath
import GoSurvey.Proofs.Source.Rejoin
import GoSurvey.Proofs.CallGraph.Patterns
import GoSurvey.Proofs.Project.Definitions
import GoSurvey.Proofs.Project.Mentions
import GoSurvey.Proofs.Flow.Expansion
import GoSurvey.Proofs.Declaration.LineSpan
import GoSurvey.Proofs.Declaration.GroupLines
