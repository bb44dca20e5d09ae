import TolerantSyntax.Command.Run
import TolerantSyntax.Command.FileTree
import TolerantSyntax.Token.Cursor
import TolerantSyntax.Proofs.Flatten.Piece
import TolerantSyntax.Proofs.Flatten.Tree
import TolerantSyntax.Proofs.Parse.Ends
import TolerantSyntax.Proofs.Parse.Loops
import TolerantSyntax.Proofs.Parse.Covers
import TolerantSyntax.Proofs.Parse.Known
import TolerantSyntax.Proofs.Parse.Reads
import TolerantSyntax.Proofs.Reads.Type
import TolerantSyntax.Proofs.Reads.Expr
import TolerantSyntax.Proofs.Reads.Stmt
import TolerantSyntax.Proofs.Reads.Part
import TolerantSyntax.Proofs.Reads.Member
import TolerantSyntax.Proofs.Lexer.Cut
import TolerantSyntax.Proofs.Lexer.Tiling
import TolerantSyntax.Proofs.Lexer.Attachment
import TolerantSyntax.Proofs.Lexer.Settled
import TolerantSyntax.Proofs.Lexer.Break
import TolerantSyntax.Proofs.Lexer.Relexing
import TolerantSyntax.Proofs.Lexer.Symbols
import TolerantSyntax.Proofs.Sentence
import TolerantSyntax.Proofs.Fidelity
import TolerantSyntax.Proofs.Acceptance
import TolerantSyntax.Proofs.Layout.Tree
import TolerantSyntax.Proofs.Versions
import TolerantSyntax.Proofs.TypeEnd.Agreement
import TolerantSyntax.Proofs.Parse.Builds
import TolerantSyntax.Proofs.Parse.Gives
import TolerantSyntax.Proofs.Builds.Type
import TolerantSyntax.Proofs.Builds.Expr
import TolerantSyntax.Proofs.Builds.Stmt
import TolerantSyntax.Proofs.Builds.Part
import TolerantSyntax.Proofs.Builds.Member
import TolerantSyntax.Proofs.Layout.Reveals
import TolerantSyntax.Proofs.Nesting
import TolerantSyntax.Proofs.Postorder
import TolerantSyntax.Proofs.Features
import TolerantSyntax.Proofs.Independence
import TolerantSyntax.Proofs.Keeps.Basic
import TolerantSyntax.Proofs.Keeps.Expr
import TolerantSyntax.Proofs.Keeps.Member
import TolerantSyntax.Proofs.Precedence
import TolerantSyntax.Proofs.RoundTrip.Term
import TolerantSyntax.Proofs.RoundTrip.Decline
import TolerantSyntax.Proofs.RoundTrip.Shown
import TolerantSyntax.Proofs.RoundTrip.Reading
import TolerantSyntax.Proofs.RoundTrip.Lexing
import TolerantSyntax.Proofs.RoundTrip.Arguments
import TolerantSyntax.Proofs.RoundTrip.Suffix
import TolerantSyntax.Proofs.RoundTrip.Climbing
import TolerantSyntax.Proofs.RoundTrip.Field
import TolerantSyntax.Proofs.Lexer.Keywords
import TolerantSyntax.Proofs.Lexer.Errors
import TolerantSyntax.Proofs.Merging
import TolerantSyntax.Proofs.Recovery.Entry
import TolerantSyntax.Proofs.Recovery.Brace
import TolerantSyntax.Proofs.Recovery.Gathers
import TolerantSyntax.Proofs.Recovery.Collects
import TolerantSyntax.Proofs.Recovery.Type
import TolerantSyntax.Proofs.Recovery.Expr
import TolerantSyntax.Proofs.Recovery.Stmt
import TolerantSyntax.Proofs.Recovery.Part
import TolerantSyntax.Proofs.Recovery.Member
import TolerantSyntax.Proofs.Recovery.Tree
import TolerantSyntax.Proofs.Bodies
import TolerantSyntax.Proofs.Braces
import TolerantSyntax.Proofs.ErrorNodes
import TolerantSyntax.Proofs.Reports
import TolerantSyntax.Proofs.Json.Reader
import TolerantSyntax.Proofs.Json.Written
import TolerantSyntax.Proofs.Json.Sealed
import TolerantSyntax.Proofs.Json.Report
import TolerantSyntax.Proofs.Subtree
import TolerantSyntax.Proofs.Visits
import TolerantSyntax.Proofs.Speculation.Script
import TolerantSyntax.Proofs.Speculation.Scripted
import TolerantSyntax.Proofs.Speculation.Cast
import TolerantSyntax.Proofs.Speculation.Expr
import TolerantSyntax.Proofs.Speculation.Member
import TolerantSyntax.Proofs.Speculation.Production
import TolerantSyntax.Proofs.TypeEnd.Decisions
import TolerantSyntax.Proofs.RoundTrip.Sequence
import TolerantSyntax.Proofs.RoundTrip.TypeTerm
import TolerantSyntax.Proofs.RoundTrip.TypeReading
import TolerantSyntax.Proofs.RoundTrip.TypeParts
import TolerantSyntax.Proofs.RoundTrip.Class
import TolerantSyntax.Proofs.RoundTrip.StmtTerm
import TolerantSyntax.Proofs.RoundTrip.StmtParts
import TolerantSyntax.Proofs.RoundTrip.StmtReading
import TolerantSyntax.Proofs.RoundTrip.Method
import TolerantSyntax.Proofs.RoundTrip.Operations
import TolerantSyntax.Proofs.RoundTrip.TypeTest
import TolerantSyntax.Proofs.Qualifier.Heads
import TolerantSyntax.Proofs.Qualifier.Steady
import TolerantSyntax.Proofs.Qualifier.Type
import TolerantSyntax.Proofs.Qualifier.Expr
import TolerantSyntax.Proofs.Qualifier.Stmt
import TolerantSyntax.Proofs.Qualifier.Part
import TolerantSyntax.Proofs.Qualifier.Member
import TolerantSyntax.Proofs.Qualifier.Tree
import TolerantSyntax.Proofs.MemberHead
import TolerantSyntax.Proofs.Committed.Artefact
import TolerantSyntax.Proofs.Committed.Type
import TolerantSyntax.Proofs.Committed.Tree
import TolerantSyntax.Proofs.Lines
import TolerantSyntax.Proofs.Lexer.Scanning
import TolerantSyntax.Proofs.Lexer.Unclosed
import TolerantSyntax.Proofs.Lexer.Flags
import TolerantSyntax.Proofs.Lexer.Spelling
import TolerantSyntax.Proofs.Messages
import TolerantSyntax.Proofs.TerminalLines
import TolerantSyntax.Proofs.TypeEnd.Memo
import TolerantSyntax.Proofs.Speculation.Procedure
import TolerantSyntax.Proofs.Recovery.Skipping
import TolerantSyntax.Proofs.Speculation.Remembered
import TolerantSyntax.Proofs.Progress.Paired
import TolerantSyntax.Proofs.Progress.Expr
import TolerantSyntax.Proofs.Progress.Member
import TolerantSyntax.Proofs.Progress.Recursion
import TolerantSyntax.Proofs.Progress.Production
import TolerantSyntax.Proofs.Progress.Loop
import TolerantSyntax.Proofs.Progress.Round
import TolerantSyntax.Proofs.Progress.Start
import TolerantSyntax.Proofs.Progress.Tree
