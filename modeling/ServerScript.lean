import ServerScript.Calendar.Date
import ServerScript.Calendar.Moment
import ServerScript.Calendar.Text
import ServerScript.Code.Declarations
import ServerScript.Code.Expr
import ServerScript.Code.Location
import ServerScript.Code.Printer
import ServerScript.Code.Reader
import ServerScript.Code.Stmt
import ServerScript.Command.Folder
import ServerScript.Command.Help
import ServerScript.Command.Options
import ServerScript.Command.Run
import ServerScript.Error
import ServerScript.Eval.Assignment
import ServerScript.Eval.Declaration
import ServerScript.Eval.Expression
import ServerScript.Eval.Instance
import ServerScript.Eval.Interpreter
import ServerScript.Eval.Loop
import ServerScript.Eval.Procedure
import ServerScript.Eval.Run
import ServerScript.Eval.Statement
import ServerScript.Function.Basic
import ServerScript.Function.Dates
import ServerScript.Function.Inspection
import ServerScript.Function.Numbers
import ServerScript.Function.Table
import ServerScript.Function.Texts
import ServerScript.Heap.Arrays
import ServerScript.Heap.Basic
import ServerScript.Host.Application
import ServerScript.Host.Basic
import ServerScript.Host.Config
import ServerScript.Host.Contents
import ServerScript.Host.Encoding
import ServerScript.Host.Path
import ServerScript.Host.Render
import ServerScript.Host.Report
import ServerScript.Host.Request
import ServerScript.Host.RequestReader
import ServerScript.Host.Response
import ServerScript.Host.Session
import ServerScript.Host.Startup
import ServerScript.Json.Basic
import ServerScript.Json.Printer
import ServerScript.Json.Reader
import ServerScript.Machine.Control
import ServerScript.Machine.Run
import ServerScript.Machine.Scopes
import ServerScript.Main
import ServerScript.Member.Application
import ServerScript.Member.Basic
import ServerScript.Member.Dictionary
import ServerScript.Member.Err
import ServerScript.Member.Request
import ServerScript.Member.Response
import ServerScript.Member.Server
import ServerScript.Member.Session
import ServerScript.Member.Table
import ServerScript.Name
import ServerScript.Number.Binary64
import ServerScript.Number.Decimal
import ServerScript.Number.Numeral
import ServerScript.Number.Word
import ServerScript.Object.Collection
import ServerScript.Object.Dictionary
import ServerScript.Proofs.AcyclicArrays
import ServerScript.Proofs.Answers
import ServerScript.Proofs.ApplicationLock
import ServerScript.Proofs.Approximation
import ServerScript.Proofs.ArrayBuilding
import ServerScript.Proofs.ArrayCopies
import ServerScript.Proofs.ArrayDepth
import ServerScript.Proofs.ArrayGraph
import ServerScript.Proofs.ArrayPaths
import ServerScript.Proofs.ArrayResizing
import ServerScript.Proofs.ArrayShapes
import ServerScript.Proofs.ArraySharing
import ServerScript.Proofs.ArrayWriting
import ServerScript.Proofs.Attempts
import ServerScript.Proofs.Builtins
import ServerScript.Proofs.CallTarget
import ServerScript.Proofs.Ceiling
import ServerScript.Proofs.CivilCalendar
import ServerScript.Proofs.ClassDeclarations
import ServerScript.Proofs.Classes
import ServerScript.Proofs.Computation
import ServerScript.Proofs.Connectives
import ServerScript.Proofs.ConstantContents
import ServerScript.Proofs.ConstantTables
import ServerScript.Proofs.ContentsHistory
import ServerScript.Proofs.CopyOut
import ServerScript.Proofs.Counting
import ServerScript.Proofs.Criteria
import ServerScript.Proofs.Custody
import ServerScript.Proofs.DateFunctions
import ServerScript.Proofs.DateIntervals
import ServerScript.Proofs.DatePatterns
import ServerScript.Proofs.DateSerials
import ServerScript.Proofs.DateTexts
import ServerScript.Proofs.DeclaredArrays
import ServerScript.Proofs.DeclaredNames
import ServerScript.Proofs.DictionaryHistory
import ServerScript.Proofs.Discipline
import ServerScript.Proofs.DocumentText
import ServerScript.Proofs.ElementWrites
import ServerScript.Proofs.ErrorPlaces
import ServerScript.Proofs.ErrorSpans
import ServerScript.Proofs.ErrorTracing
import ServerScript.Proofs.Exits
import ServerScript.Proofs.Expressions
import ServerScript.Proofs.FrameNames
import ServerScript.Proofs.Frames
import ServerScript.Proofs.HaltedDocument
import ServerScript.Proofs.Halts
import ServerScript.Proofs.HostHistory
import ServerScript.Proofs.InPlaceWrites
import ServerScript.Proofs.IntegerNumerals
import ServerScript.Proofs.IntegerOrder
import ServerScript.Proofs.IntegerTexts
import ServerScript.Proofs.JsonText
import ServerScript.Proofs.Judgement
import ServerScript.Proofs.Keeping
import ServerScript.Proofs.Lasting
import ServerScript.Proofs.LifeCycle
import ServerScript.Proofs.Locals
import ServerScript.Proofs.LoopFree
import ServerScript.Proofs.LooseComparison
import ServerScript.Proofs.MappedPaths
import ServerScript.Proofs.MarkupTexts
import ServerScript.Proofs.NameFolding
import ServerScript.Proofs.Names
import ServerScript.Proofs.NearestDouble
import ServerScript.Proofs.NumeralGrammar
import ServerScript.Proofs.Occurrences
import ServerScript.Proofs.Operators
import ServerScript.Proofs.OwnMembers
import ServerScript.Proofs.PercentTexts
import ServerScript.Proofs.Pieces
import ServerScript.Proofs.Placing
import ServerScript.Proofs.Policy
import ServerScript.Proofs.PrivateMembers
import ServerScript.Proofs.Reachability
import ServerScript.Proofs.ReadBack
import ServerScript.Proofs.Realms
import ServerScript.Proofs.Refusals
import ServerScript.Proofs.RegularMoments
import ServerScript.Proofs.RequestCollections
import ServerScript.Proofs.Requests
import ServerScript.Proofs.ResumeNext
import ServerScript.Proofs.Routing
import ServerScript.Proofs.RuleEnds
import ServerScript.Proofs.SecureSteps
import ServerScript.Proofs.Securing
import ServerScript.Proofs.SessionStart
import ServerScript.Proofs.Settling
import ServerScript.Proofs.Shapes
import ServerScript.Proofs.SharedValues
import ServerScript.Proofs.Slots
import ServerScript.Proofs.SmallForms
import ServerScript.Proofs.SmallestWord
import ServerScript.Proofs.Statements
import ServerScript.Proofs.StoppingOutput
import ServerScript.Proofs.Store
import ServerScript.Proofs.Termination
import ServerScript.Proofs.TextFunctions
import ServerScript.Proofs.Walks
import ServerScript.Proofs.WholeDouble
import ServerScript.Proofs.WordDouble
import ServerScript.Proofs.World
import ServerScript.Proofs.YearParts
import ServerScript.Text.Blank
import ServerScript.Text.Case
import ServerScript.Text.CaseTables
import ServerScript.Text.CodeRanges
import ServerScript.Text.EscapeTable
import ServerScript.Text.Quoted
import ServerScript.Text.Search
import ServerScript.Value.Basic
import ServerScript.Value.Class
import ServerScript.Value.Compare
import ServerScript.Value.Convert
import ServerScript.Value.Operator
