import DesignLint.CommandLine.Perform
import DesignLint.Config.Read
import DesignLint.Diff.Unified
import DesignLint.Document.Json
import DesignLint.Gate.Evaluate
import DesignLint.Main
import DesignLint.Proofs.FileTree.Alike
import DesignLint.Proofs.Finding.Apart
import DesignLint.Proofs.Finding.Interpolation
import DesignLint.Proofs.Finding.Kept
import DesignLint.Proofs.Finding.Search
import DesignLint.Proofs.Finding.Triage
import DesignLint.Proofs.Fix.Failure
import DesignLint.Proofs.Fix.Image
import DesignLint.Proofs.Fix.Plan
import DesignLint.Proofs.Fix.Preserve
import DesignLint.Proofs.Fix.Rewrite
import DesignLint.Proofs.Fix.Splice
import DesignLint.Proofs.Fix.Variant
import DesignLint.Proofs.Gate.Eased
import DesignLint.Proofs.Markup.Comment
import DesignLint.Proofs.Markup.Enclosure
import DesignLint.Proofs.Markup.OpeningTag
import DesignLint.Proofs.Markup.Reread
import DesignLint.Proofs.Markup.Search
import DesignLint.Proofs.Path
import DesignLint.Proofs.Regex.Group
import DesignLint.Proofs.Regex.Search
import DesignLint.Proofs.Report.Aggregate
import DesignLint.Proofs.Report.Markdown
import DesignLint.Proofs.Report.Summary
import DesignLint.Proofs.Report.Tally
import DesignLint.Proofs.Rescan.Basic
import DesignLint.Proofs.Rescan.Comment
import DesignLint.Proofs.Rescan.Declaration
import DesignLint.Proofs.Rescan.Sheet
import DesignLint.Proofs.Rescan.UtilityClass
import DesignLint.Proofs.Rule.Approval
import DesignLint.Proofs.Rule.Registry
import DesignLint.Proofs.Rule.Sample
import DesignLint.Proofs.Run.Accounts
import DesignLint.Proofs.Run.Commented
import DesignLint.Proofs.Run.Image
import DesignLint.Proofs.Run.Modes
import DesignLint.Proofs.Run.Resolution
import DesignLint.Proofs.Run.Review
import DesignLint.Proofs.Run.Schedule
import DesignLint.Proofs.Run.SecondRun
import DesignLint.Proofs.Run.Substituted
import DesignLint.Proofs.Run.Untouched
import DesignLint.Proofs.Sort
import DesignLint.Proofs.Style.BlockComment
import DesignLint.Proofs.Style.Cut
import DesignLint.Proofs.Style.Declaration
import DesignLint.Proofs.Style.Inline
import DesignLint.Proofs.Style.Interpolation
import DesignLint.Proofs.Style.Mask
import DesignLint.Proofs.Style.Site
import DesignLint.Proofs.Style.Sites
import DesignLint.Proofs.Style.Template
import DesignLint.Proofs.Style.UtilityClass
import DesignLint.Proofs.Text.Blank
import DesignLint.Proofs.Text.Place
import DesignLint.Proofs.Value
import DesignLint.Proofs.Walk.Candidates
import DesignLint.Proofs.Walk.Choice
import DesignLint.Report.Markdown
import DesignLint.Report.Summary
import DesignLint.Run.Execute
import DesignLint.Style.Sites
import DesignLint.Value
import DesignLint.Walk.Candidates
import DesignLint.Proofs.Written.Code
import DesignLint.Proofs.Written.Tag
import DesignLint.Proofs.Written.Fragment
import DesignLint.Proofs.Written.Apostrophe
import DesignLint.Proofs.Written.Complete
import DesignLint.Proofs.Finding.Expression
import DesignLint.Proofs.Finding.Fixable
import DesignLint.Proofs.Text.Class
import DesignLint.Proofs.Written.SheetSites
import DesignLint.Proofs.Written.StyleObject
import DesignLint.Proofs.Rule.Admissible
import DesignLint.Proofs.Rule.Replacement
import DesignLint.Proofs.Finding.Order
import DesignLint.Proofs.Text.Position
import DesignLint.Proofs.Path.Parent
import DesignLint.Proofs.FileTree.Direct
import DesignLint.Proofs.Settings.Root
import DesignLint.Proofs.Decimal.Layout
import DesignLint.Proofs.Value.Spelling
import DesignLint.Proofs.Text.Bytes
import DesignLint.Proofs.Bytewise.Enclosure
import DesignLint.Proofs.Bytewise.Comment
import DesignLint.Proofs.Bytewise.OpeningTag
import DesignLint.Proofs.Bytewise.Search
import DesignLint.Proofs.Markup.WellFormed
